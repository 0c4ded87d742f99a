import Xv6.Vm.Shape

/-!
# Loading a program (`kernel/exec.c`)

`execLoad` is `exec` up to the point where it commits: it builds a new address space from
the bytes of a file and the argument strings, or frees what it built. Every number of the
file is a 64-bit or 32-bit word that can have any value.
-/

namespace Xv6.Vm

open Xv6.Lib
open Xv6.Process (Stop)
open Function (update update_of_ne update_self)

/-! ## The file -/

/-- `readi` into kernel memory, on a file with these contents. `off` and `n` are 32-bit. -/
def readi (content : List UInt8) (off n : ℕ) : List UInt8 :=
  if content.length < off ∨ 2 ^ 32 ≤ off + n then [] else (content.drop off).take n

/-- The number in `w` bytes from `off` on. -/
def field (bytes : List UInt8) (off w : ℕ) : ℕ := leNat ((bytes.drop off).take w)

def ELF_MAGIC : ℕ := 0x464C457F

def ELF_PROG_LOAD : ℕ := 1

/-- `struct elfhdr`: the fields that `exec` uses. -/
structure Elfhdr where
  magic : ℕ
  entry : ℕ
  phoff : ℕ
  phnum : ℕ

/-- The layout of `struct elfhdr` (64 bytes). -/
def Elfhdr.ofBytes (b : List UInt8) : Elfhdr :=
  ⟨field b 0 4, field b 24 8, field b 32 8, field b 56 2⟩

/-- `struct proghdr`: the fields that `exec` uses. -/
structure Proghdr where
  type : ℕ
  flags : ℕ
  off : ℕ
  vaddr : ℕ
  filesz : ℕ
  memsz : ℕ

/-- The layout of `struct proghdr` (56 bytes). -/
def Proghdr.ofBytes (b : List UInt8) : Proghdr :=
  ⟨field b 0 4, field b 4 4, field b 8 8, field b 16 8, field b 32 8, field b 40 8⟩

/-- `flags2perm`. -/
def flags2perm (flags : ℕ) : ℕ :=
  (if flags.testBit 0 then PTE_X else 0) ||| (if flags.testBit 1 then PTE_W else 0)

/-! ## Segments -/

/-- The loop of `loadseg`. The counter `i` is 32-bit: near `2 ^ 32` it would start over, and
the loop would run out of `fuel`. -/
def loadsegLoop (pagetable va : ℕ) (content : List UInt8) (offset sz : ℕ) : ℕ → ℕ → VmM ℤ
  | 0, _ => throw .disabled
  | fuel + 1, i =>
    if sz ≤ i then return 0
    else do
      let pa ← walkaddr pagetable ((va + i) % 2 ^ 64)
      if pa = 0 then throw (.panic "loadseg: address should exist")
      else
        let n := if sz - i < PGSIZE then sz - i else PGSIZE
        let bytes := readi content ((offset + i) % 2 ^ 32) n
        memmove pa 0 bytes
        if bytes.length ≠ n then return -1
        else loadsegLoop pagetable va content offset sz fuel ((i + PGSIZE) % 2 ^ 32)

/-- `loadseg`. Its parameters `offset` and `sz` are 32-bit. -/
def loadseg (pagetable va : ℕ) (content : List UInt8) (offset sz : ℕ) : VmM ℤ :=
  loadsegLoop pagetable va content (offset % 2 ^ 32) (sz % 2 ^ 32) (sz % 2 ^ 32 / PGSIZE + 2) 0

/-- The loop of `exec` over the program headers, with `n` to go. It returns whether it went
well, and `sz`. The file offset `off` is 32-bit. -/
def loadLoop (lk : Link) (pagetable : ℕ) (content : List UInt8) :
    ℕ → ℕ → ℕ → VmM (Bool × ℕ)
  | 0, _, sz => return (true, sz)
  | n + 1, off, sz =>
    let bytes := readi content off 56
    let ph := Proghdr.ofBytes bytes
    if bytes.length ≠ 56 then return (false, sz)
    else if ph.type ≠ ELF_PROG_LOAD then loadLoop lk pagetable content n ((off + 56) % 2 ^ 32) sz
    else if ph.memsz < ph.filesz then return (false, sz)
    else if (ph.vaddr + ph.memsz) % 2 ^ 64 < ph.vaddr then return (false, sz)
    else if ph.vaddr % PGSIZE ≠ 0 then return (false, sz)
    else do
      let sz1 ← uvmalloc lk pagetable sz ((ph.vaddr + ph.memsz) % 2 ^ 64) (flags2perm ph.flags)
      if sz1 = 0 then return (false, sz)
      else if (← loadseg pagetable ph.vaddr content ph.off ph.filesz) < 0 then return (false, sz1)
      else loadLoop lk pagetable content n ((off + 56) % 2 ^ 32) sz1

/-! ## Arguments -/

def MAXARG : ℕ := 32

/-- `strlen` of the string at the start of a page. -/
def strlen (b : Page) : ℕ := ((b.slice 0 PGSIZE).takeWhile (· ≠ 0)).length

/-- `sp -= n; sp -= sp % 16`, with 64-bit numbers. -/
def push (sp n : ℕ) : ℕ :=
  let sp := (sp + 2 ^ 64 - n) % 2 ^ 64
  sp - sp % 16

/-- The loop of `exec` over the argument strings. It returns `sp` and `ustack`. -/
def pushArgs (pagetable stackbase : ℕ) : List ℕ → ℕ → List ℕ → VmM (Option (ℕ × List ℕ))
  | [], sp, ustack => return some (sp, ustack)
  | arg :: argv, sp, ustack =>
    if MAXARG ≤ ustack.length then return none
    else do
      let page := (← get).mem arg
      let sp := push sp (strlen page + 1)
      if sp < stackbase then return none
      else if (← copyout pagetable sp (page.slice 0 (strlen page + 1))) < 0 then return none
      else pushArgs pagetable stackbase argv sp (ustack ++ [sp])

/-- A new user image, ready to be committed. -/
structure Image where
  pagetable : ℕ
  sz : ℕ
  entry : ℕ
  sp : ℕ
  argc : ℕ

/-- The label `bad` of `exec`. -/
def execBad (lk : Link) (pagetable sz : ℕ) : VmM (Option Image) := do
  procFreepagetable lk pagetable sz
  return none

/-- `exec` with a stack that ends at `sz`: the arguments. -/
def execArgs (lk : Link) (pagetable sz entry : ℕ) (argv : List ℕ) : VmM (Option Image) := do
  let stackbase := sz - PGSIZE
  match ← pushArgs pagetable stackbase argv sz [] with
  | none => execBad lk pagetable sz
  | some (sp, ustack) =>
    let argc := ustack.length
    let sp := push sp ((argc + 1) * 8)
    if sp < stackbase then execBad lk pagetable sz
    else if (← copyout pagetable sp ((ustack ++ [0]).flatMap (leBytes 8))) < 0 then
      execBad lk pagetable sz
    else return some ⟨pagetable, sz, entry, sp, argc⟩

/-- `exec` after the segments are loaded: stack and arguments. -/
def execStack (lk : Link) (pagetable sz entry : ℕ) (argv : List ℕ) : VmM (Option Image) := do
  let sz := pgroundup sz
  let sz1 ← uvmalloc lk pagetable sz (sz + 2 * PGSIZE) PTE_W
  if sz1 = 0 then execBad lk pagetable sz
  else
    let sz := sz1
    uvmclear pagetable (sz - 2 * PGSIZE)
    execArgs lk pagetable sz entry argv

/-- `exec` on a file with these contents, up to the commit. `argv` are the pages of the
argument strings. -/
def execLoad (lk : Link) (trapframe : ℕ) (content : List UInt8) (argv : List ℕ) :
    VmM (Option Image) :=
  let bytes := readi content 0 64
  let elf := Elfhdr.ofBytes bytes
  if bytes.length ≠ 64 then return none
  else if elf.magic ≠ ELF_MAGIC then return none
  else do
    let pagetable ← procPagetable lk trapframe
    if pagetable = 0 then return none
    else
      match ← loadLoop lk pagetable content elf.phnum (elf.phoff % 2 ^ 32) 0 with
      | (false, sz) => execBad lk pagetable sz
      | (true, sz) => execStack lk pagetable sz elf.entry argv

/-! ## Argument strings (`kernel/syscall.c`, `kernel/sysfile.c`) -/

/-- `fetchaddr` in a process with this page table and size. -/
def fetchaddr (pagetable sz addr : ℕ) : VmM (Option ℕ) :=
  if sz ≤ addr ∨ sz < (addr + 8) % 2 ^ 64 then return none
  else do
    let (bytes, r) ← copyin pagetable addr 8
    return if r ≠ 0 then none else some (leNat bytes)

/-- `fetchstr` into the page `buf`. -/
def fetchstr (pagetable addr buf : ℕ) : VmM Bool := do
  let (bytes, r) ← copyinstr pagetable addr PGSIZE
  memmove buf 0 bytes
  return decide (0 ≤ r)

/-- The loop of `sys_exec` that fetches the arguments, with `n` places of `argv` to go. It
returns whether it went well, and the pages it allocated. -/
def fetchArgs (pagetable sz uargv : ℕ) : ℕ → List ℕ → VmM (Bool × List ℕ)
  | 0, argv => return (false, argv)
  | n + 1, argv => do
    match ← fetchaddr pagetable sz ((uargv + 8 * argv.length) % 2 ^ 64) with
    | none => return (false, argv)
    | some uarg =>
      if uarg = 0 then return (true, argv)
      else
        let page ← kalloc
        if page = 0 then return (false, argv)
        else if !(← fetchstr pagetable uarg page) then return (false, argv ++ [page])
        else fetchArgs pagetable sz uargv n (argv ++ [page])

/-! ## Specifications -/

variable {lk : Link} {D : Set ℕ} {m : ℕ → Page} {t told : Table} {h : ℕ → ℕ} {tf n sz : ℕ}
  {g : Option ℕ} {Q : Option Image → Ram → Prop} {argv : List ℕ}

lemma flags2perm_lt (flags : ℕ) : flags2perm flags < 1024 := by
  unfold flags2perm
  split <;> split <;> decide

lemma field_lt (bytes : List UInt8) (off w : ℕ) : field bytes off w < 256 ^ w := by
  have hlen : ((bytes.drop off).take w).length ≤ w := List.length_take_le ..
  exact (leNat_lt _).trans_le (Nat.pow_le_pow_right (by decide) hlen)

lemma le_pages (sz : ℕ) : sz ≤ pages sz * PGSIZE := by
  unfold pages PGSIZE
  omega

/-- The loop of `loadseg` at page `k` of the segment: it finds its pages, writes to them
only, and ends after the last one. -/
lemma loadsegLoop_spec (hD : D ⊆ lk.pool) (hs : Shape lk tf n none t) {va : ℕ}
    (content : List UInt8) (offset : ℕ) (hva : va % PGSIZE = 0) (hsz : va + sz ≤ n * PGSIZE)
    (hn : n ≤ 32768) (fuel : ℕ) : ∀ k ≤ pages sz, pages sz < k + fuel →
      Triple NoStop (Core D m t h) (loadsegLoop t.root va content offset sz fuel (k * PGSIZE))
        fun _ => Core D m t h := by
  induction fuel with
  | zero => exact fun k hk hlt => absurd hk (by omega)
  | succ fuel ih =>
    intro k hk hfuel
    refine .ite (fun _ => .skip) fun hlt => ?_
    have hk' : k + 1 ≤ pages sz := by
      unfold pages PGSIZE at *
      omega
    have hvpn : vpn (va + k * PGSIZE) < n := by
      unfold vpn PGSIZE at *
      omega
    have hwrap : (va + k * PGSIZE) % 2 ^ 64 = va + k * PGSIZE := by
      unfold PGSIZE at *
      omega
    have hnext : (k * PGSIZE + PGSIZE) % 2 ^ 32 = (k + 1) * PGSIZE := by
      unfold PGSIZE at *
      omega
    rw [hwrap, hnext]
    refine .of_pre fun s₀ hc₀ => ?_
    obtain ⟨-, hne⟩ := hs.addr_of_lt hc₀.leaves hvpn
    refine .bind (walkaddr_spec (fun s hc => hc.rep) (hc₀.aligned hD) hs.root _) fun pa =>
      .assume fun hpa => ?_
    subst hpa
    refine .ite (fun h0 => absurd h0 hne) fun _ => ?_
    refine .bind (Q := fun _ => Core D m t h) (.modify fun s hc => hc.touch_addr hs hne _)
      fun _ => ?_
    exact .ite (fun _ => .skip) fun _ => ih (k + 1) hk' (by omega)

lemma loadseg_spec (hD : D ⊆ lk.pool) (hs : Shape lk tf n none t) {va : ℕ} (content : List UInt8)
    (offset : ℕ) (hva : va % PGSIZE = 0) (hsz : va + sz ≤ n * PGSIZE) :
    Triple NoStop (Core D m t h) (loadseg t.root va content offset sz) fun _ => Core D m t h := by
  refine .of_pre fun s₀ hc₀ => ?_
  have hn : n ≤ 32768 := hc₀.pages_le hD hs.le fun v hv => hs.ne_zero hv
  have hmod : sz % 2 ^ 32 ≤ sz := Nat.mod_le _ _
  have hloop := loadsegLoop_spec (m := m) (h := h) hD hs content (offset % 2 ^ 32) hva
    (by omega : va + sz % 2 ^ 32 ≤ n * PGSIZE) hn (sz % 2 ^ 32 / PGSIZE + 2) 0 (by omega)
    (by unfold pages PGSIZE; omega)
  rwa [Nat.zero_mul] at hloop

/-- The loop over the program headers keeps an address space without a gap, whatever the
headers say. -/
lemma loadLoop_spec (hD : D ⊆ lk.pool) (h₀ : h 0 = 0) (h₁ : h 1 = 0) (content : List UInt8)
    (j : ℕ) : ∀ t off sz, Shape lk tf (pages sz) none t →
      Triple NoStop (Core D m t h) (loadLoop lk t.root content j off sz) fun r s =>
        ∃ t', t'.root = t.root ∧ Shape lk tf (pages r.2) none t' ∧ Core D m t' h s := by
  induction j with
  | zero => exact fun t off sz hs => .pure fun s hc => ⟨t, rfl, hs, hc⟩
  | succ j ih =>
    intro t off sz hs
    have hfail : ∀ s, Core D m t h s → ∃ t', t'.root = t.root ∧
        Shape lk tf (pages sz) none t' ∧ Core D m t' h s := fun s hc => ⟨t, rfl, hs, hc⟩
    unfold loadLoop
    dsimp only
    generalize readi content off 56 = bytes
    generalize hph : Proghdr.ofBytes bytes = ph
    have hvaddr : ph.vaddr < 2 ^ 64 := hph ▸ field_lt bytes 16 8
    have hmemsz : ph.memsz < 2 ^ 64 := hph ▸ field_lt bytes 40 8
    refine .ite (fun _ => .pure hfail) fun _ => ?_
    refine .ite (fun _ => ih t _ sz hs) fun _ => ?_
    refine .ite (fun _ => .pure hfail) fun hsizes => ?_
    refine .ite (fun _ => .pure hfail) fun hwrap => ?_
    refine .ite (fun _ => .pure hfail) fun haligned => ?_
    have hsum : (ph.vaddr + ph.memsz) % 2 ^ 64 = ph.vaddr + ph.memsz := by omega
    rw [hsum]
    refine .bind (uvmalloc_spec hD h₀ h₁ (flags2perm_lt ph.flags) hs) fun sz1 =>
      .exists_pre fun t' => .assume fun hkeep => ?_
    refine .ite (fun hzero => ?_) fun hne => ?_
    · refine .pure fun s hc => ⟨t', hkeep.root, ?_, hc.1⟩
      obtain ⟨-, hs'⟩ | ⟨hmax, hs'⟩ := hc.2
      · exact hs'
      · have hsz : sz = max sz (ph.vaddr + ph.memsz) := by omega
        rw [← hsz] at hs'
        exact hs'
    · refine .of_pre fun s₀ hc₀ => ?_
      obtain ⟨hmax, hs'⟩ := hc₀.2.resolve_left fun hr => hne hr.1
      rw [← hmax] at hs'
      have hend : ph.vaddr + ph.filesz ≤ pages sz1 * PGSIZE := by
        have := le_pages sz1
        omega
      have hseg := loadseg_spec (m := m) (h := h) hD hs' content ph.off (by omega) hend
      rw [hkeep.root] at hseg
      refine .bind (hseg.pre fun s hc => hc.1) fun r => ?_
      refine .ite (fun _ => .pure fun s hc => ⟨t', hkeep.root, hs', hc⟩) fun _ => ?_
      have hrec := ih t' ((off + 56) % 2 ^ 32) sz1 hs'
      rw [hkeep.root] at hrec
      exact hrec

/-- The argument strings go to pages of the user. -/
lemma pushArgs_spec (hD : D ⊆ lk.pool) (hs : Shape lk tf n g t) (stackbase : ℕ)
    (argv : List ℕ) : ∀ sp ustack,
      Triple NoStop (Core D m t h) (pushArgs t.root stackbase argv sp ustack)
        fun _ => Core D m t h := by
  induction argv with
  | nil => exact fun _ _ => .skip
  | cons arg argv ih =>
    intro sp ustack
    refine .ite (fun _ => .skip) fun _ => .read_bind fun _ _ => ?_
    refine .ite (fun _ => .skip) fun _ => ?_
    refine .bind (copyout_spec hD hs _ _) fun r => ?_
    exact .ite (fun _ => .skip) fun _ => ih _ _

lemma execBad_spec (hD : D ⊆ lk.pool) (h₀ : h 0 = 0) (hs : Shape lk tf (pages sz) g t)
    (htf : tf ∈ lk.pool) (htf0 : tf ≠ 0) :
    Triple NoStop (Core D m t h) (execBad lk t.root sz) fun r s =>
      r = none ∧ Core D m Table.empty h s :=
  (procFreepagetable_spec hD h₀ hs htf htf0).bind fun _ => .pure fun _ hc => ⟨rfl, hc⟩

/-- What `exec` has built: nothing, or an image with its table. -/
def Loaded (lk : Link) (D : Set ℕ) (m : ℕ → Page) (h : ℕ → ℕ) (tf : ℕ) (r : Option Image)
    (s : Ram) : Prop :=
  (r = none ∧ Core D m Table.empty h s) ∨
  ∃ img t g, r = some img ∧ t.root = img.pagetable ∧ Shape lk tf (pages img.sz) g t ∧
    Core D m t h s

/-- The new space gets a guard page and a stack page for the arguments, or is freed. -/
lemma execStack_rule (hD : D ⊆ lk.pool) (h₀ : h 0 = 0) (h₁ : h 1 = 0) {entry : ℕ}
    (hs : Shape lk tf (pages sz) none t) (htf : tf ∈ lk.pool) (htf0 : tf ≠ 0)
    (hbad : ∀ s, Core D m Table.empty h s → Q none s)
    (hargs : ∀ N t, Shape lk tf (N + 2) (some N) t →
      Triple NoStop (Core D m t h) (execArgs lk t.root ((N + 2) * PGSIZE) entry argv) Q) :
    Triple NoStop (Core D m t h) (execStack lk t.root sz entry argv) Q := by
  unfold execStack
  dsimp only
  rw [pgroundup_eq hs.le]
  generalize pages sz = N at hs
  rw [← pages_mul N] at hs
  refine .bind (uvmalloc_spec hD h₀ h₁ (by decide) hs) fun sz1 =>
    .exists_pre fun t' => .assume fun hkeep => ?_
  have hmax : max (N * PGSIZE) (N * PGSIZE + 2 * PGSIZE) = (N + 2) * PGSIZE := by
    unfold PGSIZE
    omega
  rw [hmax, pages_mul, pages_mul, ← hkeep.root]
  refine .of_pre fun s₀ hc₀ => ?_
  refine .pre (P := Core D m t' h) ?_ fun s hc => hc.1
  refine .ite (fun hzero => ?_) fun hne => ?_
  · obtain ⟨-, hs'⟩ | ⟨hsz, -⟩ := hc₀.2
    · rw [← pages_mul N] at hs'
      refine (execBad_spec hD h₀ hs' htf htf0).post fun r s hr => ?_
      rw [hr.1]
      exact hbad s hr.2
    · unfold PGSIZE at hsz
      omega
  obtain ⟨hsz, hs'⟩ := hc₀.2.resolve_left fun hr => hne hr.1
  have hguard : sz1 - 2 * PGSIZE = N * PGSIZE := by
    rw [hsz]
    unfold PGSIZE
    omega
  rw [hguard]
  refine .bind (uvmclear_spec hD hs' (by omega : N < N + 2)) fun _ =>
    .exists_pre fun t'' => .assume fun hkeep' => .assume fun hs'' => ?_
  rw [← hkeep'.root, hsz]
  exact hargs N t'' hs''

lemma execArgs_spec (hD : D ⊆ lk.pool) (h₀ : h 0 = 0) {N : ℕ}
    (hs : Shape lk tf (N + 2) (some N) t) (htf : tf ∈ lk.pool) (htf0 : tf ≠ 0) (entry : ℕ)
    (argv : List ℕ) :
    Triple NoStop (Core D m t h) (execArgs lk t.root ((N + 2) * PGSIZE) entry argv)
      (Loaded lk D m h tf) := by
  unfold execArgs
  dsimp only
  rw [← pages_mul (N + 2)] at hs
  have hbad := execBad_spec (m := m) hD h₀ hs htf htf0
  refine .bind (pushArgs_spec hD hs _ argv _ []) fun r => ?_
  cases r with
  | none => exact hbad.post fun r s hr => .inl hr
  | some r =>
    obtain ⟨sp, ustack⟩ := r
    refine .ite (fun _ => hbad.post fun r s hr => .inl hr) fun _ => ?_
    refine .bind (copyout_spec hD hs _ _) fun r => ?_
    refine .ite (fun _ => hbad.post fun r s hr => .inl hr) fun _ => ?_
    exact .pure fun s hc => .inr ⟨_, t, some N, rfl, rfl, hs, hc⟩

/-- `exec` up to the stack, for every file: it loads the segments, or frees what it built. -/
lemma execLoad_rule (content : List UInt8) (hD : D ⊆ lk.pool) (h₀ : h 0 = 0) (h₁ : h 1 = 0)
    (htf : tf ∈ lk.pool) (htf0 : tf ≠ 0) (hbad : ∀ s, Core D m Table.empty h s → Q none s)
    (hargs : ∀ N entry t, Shape lk tf (N + 2) (some N) t →
      Triple NoStop (Core D m t h) (execArgs lk t.root ((N + 2) * PGSIZE) entry argv) Q) :
    Triple NoStop (Core D m Table.empty h) (execLoad lk tf content argv) Q := by
  unfold execLoad
  dsimp only
  generalize readi content 0 64 = bytes
  generalize Elfhdr.ofBytes bytes = elf
  refine .ite (fun _ => .pure hbad) fun _ => ?_
  refine .ite (fun _ => .pure hbad) fun _ => ?_
  refine .bind (procPagetable_spec hD h₀ h₁ htf htf0) fun pt =>
    .or_pre (.assume fun hpt => ?_) (.assume fun hpt => ?_)
  · rw [if_pos hpt]
    exact .pure hbad
  rw [if_neg hpt]
  refine .exists_pre fun t => .assume fun hroot => .assume fun hs => ?_
  rw [← hroot]
  refine .bind (loadLoop_spec hD h₀ h₁ content elf.phnum t _ 0 hs) fun r =>
    .exists_pre fun t' => .assume fun hroot' => .assume fun hs' => ?_
  obtain ⟨ok, sz⟩ := r
  rw [← hroot']
  cases ok with
  | false =>
    refine (execBad_spec hD h₀ hs' htf htf0).post fun r s hr => ?_
    rw [hr.1]
    exact hbad s hr.2
  | true => exact execStack_rule hD h₀ h₁ hs' htf htf0 hbad fun N t => hargs N elf.entry t

/-- `exec` builds a well-shaped address space or leaves nothing behind, for every file. -/
lemma execLoad_spec (hD : D ⊆ lk.pool) (h₀ : h 0 = 0) (h₁ : h 1 = 0) (htf : tf ∈ lk.pool)
    (htf0 : tf ≠ 0) (content : List UInt8) (argv : List ℕ) :
    Triple NoStop (Core D m Table.empty h) (execLoad lk tf content argv)
      (Loaded lk D m h tf) :=
  execLoad_rule content hD h₀ h₁ htf htf0 (fun _ hc => .inl ⟨rfl, hc⟩) fun _ entry _ hs =>
    execArgs_spec hD h₀ hs htf htf0 entry argv

/-! ## Argument pages -/

/-- The pages of the argument strings, as pages in hand. -/
def argHands (argv : List ℕ) (j : ℕ) : ℕ := if j < 2 then 0 else argv.getD (j - 2) 0

lemma argHands_next (argv : List ℕ) : argHands argv (argv.length + 2) = 0 := by
  simp [argHands]

lemma argHands_append (argv : List ℕ) (q : ℕ) :
    update (argHands argv) (argv.length + 2) q = argHands (argv ++ [q]) := by
  funext j
  by_cases hj : j = argv.length + 2
  · subst hj
    simp [argHands]
  · rw [update_of_ne hj]
    unfold argHands
    by_cases hlt : j < 2
    · rw [if_pos hlt, if_pos hlt]
    · rw [if_neg hlt, if_neg hlt, List.getD_eq_getElem?_getD, List.getD_eq_getElem?_getD,
        List.getElem?_append]
      by_cases hin : j - 2 < argv.length
      · rw [if_pos hin]
      · rw [if_neg hin, List.getElem?_eq_none (by omega), List.getElem?_eq_none (by simp; omega)]

lemma fetchaddr_spec (ha : Aside D m told) (hroot : told.root ≠ 0) (sz addr : ℕ) :
    Triple NoStop (Core D m t h) (fetchaddr told.root sz addr) fun _ => Core D m t h := by
  refine .ite (fun _ => .skip) fun _ => ?_
  exact (copyin_spec (fun s hc => ha.rep_of_core hc) ha.aligned hroot addr 8).bind fun r =>
    .skip

lemma fetchstr_spec (ha : Aside D m told) (hroot : told.root ≠ 0) {j buf : ℕ} (hj : h j = buf)
    (hbuf : buf ≠ 0) (addr : ℕ) :
    Triple NoStop (Core D m t h) (fetchstr told.root addr buf) fun _ => Core D m t h := by
  subst hj
  refine (copyinstr_spec (fun s hc => ha.rep_of_core hc) ha.aligned hroot addr PGSIZE).bind
    fun r => ?_
  exact .bind (Q := fun _ => Core D m t h) (.modify fun s hc => hc.touch_hand hbuf _) fun _ => .skip

lemma fetchArgs_spec (ha : Aside D m told) (hroot : told.root ≠ 0) (sz uargv n : ℕ) :
    ∀ argv, (∀ a ∈ argv, a ≠ 0) →
      Triple NoStop (Core D m t (argHands argv)) (fetchArgs told.root sz uargv n argv) fun r s =>
        (∀ a ∈ r.2, a ≠ 0) ∧ Core D m t (argHands r.2) s := by
  induction n with
  | zero => exact fun argv hargv => .pure fun s hc => ⟨hargv, hc⟩
  | succ n ih =>
    intro argv hargv
    refine (fetchaddr_spec ha hroot sz _).bind fun r => ?_
    cases r with
    | none => exact .pure fun s hc => ⟨hargv, hc⟩
    | some uarg =>
      refine .ite (fun _ => .pure fun s hc => ⟨hargv, hc⟩) fun _ => ?_
      refine kalloc_bind (argv.length + 2) (argHands_next argv)
        (.pure fun s hc => ⟨hargv, hc⟩) fun q hq => ?_
      have hargv' : ∀ a ∈ argv ++ [q], a ≠ 0 := by
        intro a ha
        obtain ha | ha := List.mem_append.1 ha
        · exact hargv a ha
        · rw [List.mem_singleton.1 ha]
          exact hq
      rw [if_neg hq]
      refine .bind (fetchstr_spec ha hroot (update_self ..) hq uarg) fun r => ?_
      rw [argHands_append]
      exact .ite (fun _ => .pure fun s hc => ⟨hargv', hc⟩) fun _ => ih _ hargv'

/-- Freeing the pages in the hands from `b` on. -/
lemma freeHands_spec (hD : D ⊆ lk.pool) (argv : List ℕ) : ∀ b h, (∀ a ∈ argv, a ≠ 0) →
    (∀ i < argv.length, h (b + i) = argv.getD i 0) →
      Triple NoStop (Core D m t h) (argv.forM (kfree lk)) fun _ =>
        Core D m t fun j => if b ≤ j ∧ j < b + argv.length then 0 else h j := by
  induction argv with
  | nil =>
    intro b h _ _
    refine .pure fun s hc => ?_
    have hh : (fun j => if b ≤ j ∧ j < b + 0 then 0 else h j) = h := by
      funext j
      rw [if_neg (by omega)]
    rwa [List.length_nil, hh]
  | cons a argv ih =>
    intro b h hne hhands
    have hb : h b = a := by simpa using hhands 0 (by simp)
    refine .bind (kfree_hand hD hb (hne a (by simp))) fun _ => ?_
    refine (ih (b + 1) (update h b 0) (fun a ha => hne a (by simp [ha])) ?_).post ?_
    · intro i hi
      rw [update_of_ne (by omega), show b + 1 + i = b + (i + 1) by omega,
        hhands (i + 1) (by simpa using hi), List.getD_cons_succ]
    · intro _ s hc
      have hh : (fun j => if b + 1 ≤ j ∧ j < b + 1 + argv.length then 0
          else update h b 0 j) =
          fun j => if b ≤ j ∧ j < b + (a :: argv).length then 0 else h j := by
        funext j
        rw [List.length_cons]
        by_cases hj : j = b
        · subst hj
          rw [if_neg (by omega), if_pos (by omega), update_self]
        · rw [update_of_ne hj]
          by_cases hin : b + 1 ≤ j ∧ j < b + 1 + argv.length
          · rw [if_pos hin, if_pos (by omega)]
          · rw [if_neg hin, if_neg (by omega)]
      rwa [hh] at hc

/-- The last loop of `sys_exec` frees the argument pages. -/
lemma freeArgs_spec (hD : D ⊆ lk.pool) (hargv : ∀ a ∈ argv, a ≠ 0) :
    Triple NoStop (Core D m t (argHands argv)) (argv.forM (kfree lk)) fun _ =>
      Core D m t fun _ => 0 := by
  refine (freeHands_spec hD argv 2 (argHands argv) hargv fun i _ => ?_).post fun _ s hc => ?_
  · rw [argHands, if_neg (by omega), Nat.add_sub_cancel_left]
  · have hh : (fun j => if 2 ≤ j ∧ j < 2 + argv.length then 0 else argHands argv j) =
        fun _ => 0 := by
      funext j
      by_cases hin : 2 ≤ j ∧ j < 2 + argv.length
      · rw [if_pos hin]
      · rw [if_neg hin, argHands]
        by_cases hj : j < 2
        · rw [if_pos hj]
        · rw [if_neg hj, List.getD_eq_getElem?_getD, List.getElem?_eq_none (by omega)]
          rfl
    rwa [hh] at hc

end Xv6.Vm
