import Xv6.Vm.PipeRead

/-!
# Copies to user memory

`read`, `fstat`, `pipe` and `wait` write to user memory through `copyout`. It takes the page
from `walkaddr`, which asks for `PTE_V` and `PTE_U` and not for `PTE_W`: a process can have the
kernel write to a page that `exec` mapped without write permission and that its own stores
would fault on.

`Copies t addr src x` says that `x` does nothing to memory but copy `src` to `addr`, up to the
first address that user code cannot access. The rest of a call keeps the page-table pages and
the pages without `PTE_W`. So such a page changes exactly if a byte that arrives there differs
from the one in its place.
-/

namespace Xv6.Vm

open Xv6.Lib
open Xv6.Process (NPROC Slot ProcState Stop)
open Function (update update_of_ne update_self)

/-! ## `read` -/

/-- The loop of `readi` for a user address, with `n` bytes to go and `tot` done. It copies at
least one byte a round. -/
def readiLoop (pagetable : ℕ) (content : List UInt8) : ℕ → ℕ → ℕ → ℕ → ℕ → VmM ℤ
  | 0, _, _, _, tot => return tot
  | fuel + 1, off, dst, n, tot =>
    if n = 0 then return tot
    else do
      let m := min n (BSIZE - off % BSIZE)
      if (← copyout pagetable dst ((content.drop off).take m)) = -1 then return -1
      else readiLoop pagetable content fuel (off + m) ((dst + m) % 2 ^ 64) (n - m) (tot + m)

/-- `readi` for a user address, on a file with these contents. -/
def readiUser (pagetable : ℕ) (content : List UInt8) (dst : ℕ) (off n : BitVec 32) : VmM ℤ :=
  if content.length < off.toNat ∨ (off + n).toNat < off.toNat then return 0
  else
    let n := if content.length < off.toNat + n.toNat then content.length - off.toNat else n.toNat
    readiLoop pagetable content n off.toNat dst n 0

/-- `C('D')`. -/
def CTRL_D : UInt8 := 4

/-- The loop of `consoleread`, with `n` bytes to go. It returns the bytes left, or `none` if
the process is killed when there is no more input. -/
def consolereadLoop (pagetable : ℕ) : List UInt8 → ℕ → ℕ → VmM (Option ℕ)
  | _, _, 0 => return some 0
  | [], _, _ + 1 => return none
  | c :: input, dst, n + 1 => do
    if c = CTRL_D then return some (n + 1)
    else if (← copyout pagetable dst [c]) = -1 then return some (n + 1)
    else if c = 10 then return some n
    else consolereadLoop pagetable input ((dst + 1) % 2 ^ 64) n

/-- `consoleread`. `input` is what arrives before the process is killed. -/
def consoleread (pagetable : ℕ) (input : List UInt8) (dst : ℕ) (n : BitVec 32) : VmM ℤ := do
  match ← consolereadLoop pagetable input dst n.toInt.toNat with
  | none => return -1
  | some left => return (n.toInt.toNat - left : ℤ)

/-! ## `fstat` -/

/-- `struct stat`, with the bytes between its fields. -/
structure Stat where
  dev : BitVec 32
  ino : BitVec 32
  type : BitVec 16
  nlink : BitVec 16
  pad : BitVec 32
  size : BitVec 64

/-- The layout of `struct stat`. -/
def Stat.bytes (st : Stat) : List UInt8 :=
  leBytes 4 st.dev.toNat ++ leBytes 4 st.ino.toNat ++ leBytes 2 st.type.toNat ++
    leBytes 2 st.nlink.toNat ++ leBytes 4 st.pad.toNat ++ leBytes 8 st.size.toNat

/-- `filestat`, on an inode with these data. -/
def filestat (pagetable : ℕ) (st : Stat) (addr : ℕ) : VmM ℤ := do
  if (← copyout pagetable addr st.bytes) < 0 then return -1 else return 0

/-! ## The calls -/

/-- A system call that copies data to user memory. A descriptor that is no pipe is given by
what it yields: the contents of an inode, the input of the console, or the data of `fstat`. -/
inductive Copy where
  | readPipe (fd : Fin NOFILE) (addr : BitVec 64) (n : BitVec 32)
  | readInode (content : List UInt8) (off : BitVec 32) (addr : BitVec 64) (n : BitVec 32)
  | readConsole (input : List UInt8) (addr : BitVec 64) (n : BitVec 32)
  | fstat (st : Stat) (addr : BitVec 64)
  | pipe (fdarray : BitVec 64)
  | wait (addr : BitVec 64)

/-- `sys_read` on a pipe. -/
def readPipe (p : Slot) (fd : Fin NOFILE) (addr : ℕ) (n : BitVec 32) : M ℤ := do
  let pr ← proc p
  match pr.ofile fd with
  | none => return -1
  | some f =>
    let ff ← file f
    match ff.pipe with
    | none => return -1
    | some pi =>
      if ff.writable then return -1
      else vm (piperead pr.pagetable pi addr n)

/-- The code of such a call made by process `p`. -/
def Copy.code (lk : Link) (p : Slot) : Copy → M ℤ
  | .readPipe fd addr n => Vm.readPipe p fd addr.toNat n
  | .readInode content off addr n => do
    let pr ← proc p
    vm (readiUser pr.pagetable content addr.toNat off n)
  | .readConsole input addr n => do
    let pr ← proc p
    vm (consoleread pr.pagetable input addr.toNat n)
  | .fstat st addr => do
    let pr ← proc p
    vm (filestat pr.pagetable st addr.toNat)
  | .pipe fdarray => sysPipe lk p fdarray.toNat
  | .wait addr => do
    match ← Vm.wait lk p addr.toNat with
    | none => return -1
    | some q => return q.val

/-- Process `p` makes such a call, during which `kalloc` fails as `deny` says. -/
def Copy.call (lk : Link) (p : Slot) (c : Copy) (deny : ℕ → Bool) : M ℤ := do
  modify fun s => { s with ram := { s.ram with deny := deny } }
  if (← proc p).state = .runnable then c.code lk p else throw .disabled

/-- Where the call copies to. -/
def Copy.addr : Copy → ℕ
  | .readPipe _ addr _ => addr.toNat
  | .readInode _ _ addr _ => addr.toNat
  | .readConsole _ addr _ => addr.toNat
  | .fstat _ addr => addr.toNat
  | .pipe fdarray => fdarray.toNat
  | .wait addr => addr.toNat

/-- What `consoleread` has to copy: the input up to `^D`, and no more than a line. -/
def consoleBytes : List UInt8 → ℕ → List UInt8
  | _, 0 => []
  | [], _ + 1 => []
  | c :: input, n + 1 =>
    if c = CTRL_D then [] else if c = 10 then [c] else c :: consoleBytes input n

/-- The bytes that the call has to copy. -/
def Copy.bytes (lk : Link) (p : Slot) (s : State) : Copy → List UInt8
  | .readPipe fd _ n =>
    match (s.sys.proc p).ofile fd with
    | none => []
    | some f =>
      match (s.sys.file f).pipe with
      | none => []
      | some pi =>
        if (s.sys.file f).writable then [] else (ring (s.ram.mem pi)).contents.take n.toInt.toNat
  | .readInode content off _ n =>
    if (off + n).toNat < off.toNat then [] else (content.drop off.toNat).take n.toNat
  | .readConsole input _ n => consoleBytes input n.toInt.toNat
  | .fstat st _ => st.bytes
  | .pipe _ =>
    match (sysPipeAlloc lk p).run s with
    | .ok (some (_, (fd0, fd1)), _) => leBytes 4 fd0 ++ leBytes 4 fd1
    | _ => []
  | .wait addr =>
    match s.sys.exited p with
    | none => []
    | some q => if addr.toNat = 0 then [] else leBytes 4 (s.sys.proc q).xstate.toNat

variable {lk : Link} {K : Set ℕ} {m : ℕ → Page} {G : Owners} {k : Sys} {t : Table} {p q : Slot}
  {s s' : State} {E : Stop → Prop} {α : Type} {addr pi : ℕ} {x : VmM α}

/-! ## Code that copies -/

/-- The code copies `src` to `addr` as far as user code can access the destination, and does
nothing else to memory. -/
def Copies (t : Table) (addr : ℕ) (src : List UInt8) (x : VmM α) : Prop :=
  ∀ s, UserSpace s.mem t → ∃ a,
    x.run s = .ok (a, { s with mem := t.write s.mem addr (t.reach addr src) })

namespace Copies

variable {src src' : List UInt8} {f : ℤ → VmM α}

lemma pure (a : α) : Copies t addr [] (Pure.pure a : VmM α) := fun _ _ => ⟨a, rfl⟩

/-- A copy, and more behind it unless it fails. -/
lemma copyout_bind (a : α) (hfail : f (-1) = Pure.pure a)
    (hok : (∀ i < src.length, t.Accessible (addr + i)) → Copies t (addr + src.length) src' (f 0)) :
    Copies t addr (src ++ src') (copyout t.root addr src >>= f) := by
  intro s h
  by_cases hacc : ∀ i < src.length, t.Accessible (addr + i)
  · obtain ⟨a, hrest⟩ := hok hacc { s with mem := t.write s.mem addr src } (h.write hacc)
    refine ⟨a, ?_⟩
    rw [run_bind_of_ok (h.copyout_ok hacc), hrest, Table.reach_append hacc, Table.write_append]
  · obtain ⟨hstop, hrun⟩ := h.copyout_fail hacc
    refine ⟨a, ?_⟩
    rw [run_bind_of_ok hrun, hfail, hstop]
    rfl

/-- A single copy. -/
lemma of_copyout (a b : α) (hok : f 0 = Pure.pure a) (hfail : f (-1) = Pure.pure b) :
    Copies t addr src (copyout t.root addr src >>= f) := by
  have hcopy : Copies t addr (src ++ []) (copyout t.root addr src >>= f) :=
    copyout_bind b hfail fun _ => hok ▸ .pure a
  rwa [List.append_nil] at hcopy

end Copies

/-- Behind bytes that user code can access there is another address. -/
lemma Table.Accessible.next {len : ℕ} (h : t.Accessible addr) (hlen : len ≤ PGSIZE) :
    (addr + len) % 2 ^ 64 = addr + len := by
  have hlt := h.1
  unfold MAXVA at hlt
  unfold PGSIZE at hlen
  exact Nat.mod_eq_of_lt (by omega)

lemma readiLoop_copies (content : List UInt8) (fuel off dst n tot : ℕ)
    (hlen : off + n ≤ content.length) (hfuel : n ≤ fuel) :
    Copies t dst ((content.drop off).take n) (readiLoop t.root content fuel off dst n tot) := by
  induction fuel generalizing off dst n tot with
  | zero =>
    obtain rfl : n = 0 := by omega
    exact .pure _
  | succ fuel ih =>
    unfold readiLoop
    by_cases hn : n = 0
    · subst hn
      exact .pure _
    rw [if_neg hn]
    have hmod : off % BSIZE < BSIZE := Nat.mod_lt _ (by decide)
    obtain ⟨m, hm⟩ : ∃ m, m = min n (BSIZE - off % BSIZE) := ⟨_, rfl⟩
    have hsplit : (content.drop off).take n =
        (content.drop off).take m ++ (content.drop (off + m)).take (n - m) := by
      rw [← List.drop_drop, ← List.take_add, Nat.add_sub_of_le (by omega)]
    have hsrc : ((content.drop off).take m).length = m := by
      rw [List.length_take, List.length_drop]
      omega
    rw [hsplit]
    dsimp only
    rw [← hm]
    refine .copyout_bind (-1) (if_pos rfl) fun hacc => ?_
    have hdst : t.Accessible dst := hacc 0 (by omega)
    rw [if_neg (by decide), hdst.next (by unfold PGSIZE; unfold BSIZE at hm; omega), hsrc]
    exact ih _ _ _ _ (by omega) (by omega)

lemma readiUser_copies (content : List UInt8) (off n : BitVec 32) :
    Copies t addr (if (off + n).toNat < off.toNat then []
      else (content.drop off.toNat).take n.toNat) (readiUser t.root content addr off n) := by
  unfold readiUser
  by_cases hover : (off + n).toNat < off.toNat
  · rw [if_pos hover, if_pos (.inr hover)]
    exact .pure _
  rw [if_neg hover]
  by_cases hoff : content.length < off.toNat
  · rw [if_pos (.inl hoff), List.drop_eq_nil_of_le hoff.le, List.take_nil]
    exact .pure _
  rw [if_neg (by omega)]
  dsimp only
  by_cases hlong : content.length < off.toNat + n.toNat
  · have htake : (content.drop off.toNat).take n.toNat =
        (content.drop off.toNat).take (content.length - off.toNat) := by
      rw [List.take_of_length_le (by rw [List.length_drop]; omega),
        List.take_of_length_le (by rw [List.length_drop])]
    rw [if_pos hlong, htake]
    exact readiLoop_copies content _ _ _ _ _ (by omega) le_rfl
  · rw [if_neg hlong]
    exact readiLoop_copies content _ _ _ _ _ (by omega) le_rfl

lemma consolereadLoop_copies (input : List UInt8) (n : ℕ) :
    Copies t addr (consoleBytes input n) (consolereadLoop t.root input addr n) := by
  induction input generalizing addr n with
  | nil =>
    cases n with
    | zero => exact .pure _
    | succ n => exact .pure _
  | cons c input ih =>
    cases n with
    | zero => exact .pure _
    | succ n =>
      unfold consolereadLoop consoleBytes
      by_cases hd : c = CTRL_D
      · rw [if_pos hd, if_pos hd]
        exact .pure _
      rw [if_neg hd, if_neg hd]
      by_cases hnl : c = 10
      · rw [if_pos hnl]
        exact .of_copyout _ _ (by rw [if_neg (by decide), if_pos hnl]) (if_pos rfl)
      · rw [if_neg hnl]
        show Copies t addr ([c] ++ _) _
        refine .copyout_bind _ (if_pos rfl) fun hacc => ?_
        have haddr : t.Accessible addr := hacc 0 Nat.one_pos
        rw [if_neg (by decide), if_neg hnl, haddr.next (by decide)]
        exact ih n

lemma consoleread_copies (input : List UInt8) (n : BitVec 32) :
    Copies t addr (consoleBytes input n.toInt.toNat) (consoleread t.root input addr n) := by
  intro s h
  obtain ⟨o, hrun⟩ := consolereadLoop_copies input n.toInt.toNat s h
  rw [consoleread, run_bind_of_ok hrun]
  cases o with
  | none => exact ⟨_, rfl⟩
  | some left => exact ⟨_, rfl⟩

lemma filestat_copies (st : Stat) : Copies t addr st.bytes (filestat t.root st addr) :=
  .of_copyout 0 (-1) (if_neg (by decide)) (if_pos (by decide))

/-! ## `pipe` -/

/-- The pages of `K` are kept, those of pipes in the files of `A` are others, and process `p`
still has its page table. -/
structure KeptFiles (K : Set ℕ) (m : ℕ → Page) (A : Set FileNo) (t : Table) (p : Slot)
    (s : State) : Prop where
  ram : Kept K m s.ram
  pipes : ∀ f ∈ A, ∀ b, (s.sys.file f).pipe = some b → b ∉ K
  idle : ∀ f, (s.sys.file f).ref = 0 → f ∈ A
  table : (s.sys.proc p).pagetable = t.root

section Files

variable {A : Set FileNo} {f : FileNo}

lemma vm_files {m' : ℕ → Page} {Q : α → Prop}
    (hx : Triple E (Kept K m) x fun r s => Q r ∧ Kept K m' s) :
    Triple E (KeptFiles K m A t p) (vm x) fun r s => Q r ∧ KeptFiles K m' A t p s := by
  refine .of_run fun s hs => ?_
  have hvm := (vm_spec (φ := (· = s.sys)) hx).run ⟨rfl, hs.ram⟩
  refine hvm.mono fun r hr => ⟨hr.2.1, hr.2.2, ?_, ?_, ?_⟩
  · rw [hr.1]
    exact hs.pipes
  · rw [hr.1]
    exact hs.idle
  · rw [hr.1]
    exact hs.table

/-- A file of `A` changes, and its pipe is none of `K`. -/
lemma modifyFile_kept {g : File → File} (hf : f ∈ A)
    (hg : ∀ x : File, (∀ b, x.pipe = some b → b ∉ K) → ∀ b, (g x).pipe = some b → b ∉ K) :
    Triple E (KeptFiles K m A t p) (modifyFile f g) fun _ => KeptFiles K m A t p := by
  refine .modify fun s hs => ⟨hs.ram, fun c hc b hb => ?_, fun c hc => ?_, hs.table⟩
  · change (update s.sys.file f (g (s.sys.file f)) c).pipe = some b at hb
    by_cases hcf : c = f
    · rw [hcf, update_self] at hb
      exact hg _ (hs.pipes f hf) b hb
    · rw [update_of_ne hcf] at hb
      exact hs.pipes c hc b hb
  · change (update s.sys.file f (g (s.sys.file f)) c).ref = 0 at hc
    by_cases hcf : c = f
    · rw [hcf]
      exact hf
    · rw [update_of_ne hcf] at hc
      exact hs.idle c hc

lemma filealloc_kept :
    Triple E (KeptFiles K m A t p) filealloc fun r s =>
      (∀ f, r = some f → f ∈ A) ∧ KeptFiles K m A t p s := by
  refine .read_bind fun s hs => ?_
  dsimp only
  split
  case h_1 f hfind =>
    have hf : f ∈ A := by
      have := List.find?_some hfind
      exact hs.idle f (by simpa using this)
    refine .bind (modifyFile_kept hf ?_) fun _ => .pure fun s hs => ⟨?_, hs⟩
    · exact fun x hx => hx
    · rintro f' hf'
      exact Option.some.inj hf' ▸ hf
  case h_2 => exact .pure fun s hs => ⟨by simp, hs⟩

lemma pipeclose_kept (hpi : pi ∉ K) (w : Bool) :
    Triple AnyStop (Kept K m) (pipeclose lk pi w) fun _ => Kept K m := by
  refine .bind (Q := fun _ => Kept K m) (.modify fun s hs => hs.setPage hpi _) fun _ => ?_
  refine .bind (Q := fun _ => Kept K m) (.read_bind fun s _ => .skip) fun b => ?_
  refine .bind (Q := fun _ => Kept K m) (.read_bind fun s _ => .skip) fun c => ?_
  exact .ite (fun _ => kfree_kept hpi) fun _ => .skip

lemma fileclose_kept (hf : f ∈ A) :
    Triple AnyStop (KeptFiles K m A t p) (fileclose lk f) fun _ => KeptFiles K m A t p := by
  refine .read_bind fun s hs => .ite (fun _ => .throw trivial) fun _ => ?_
  refine .ite (fun _ => modifyFile_kept hf fun x hx => hx) fun _ => ?_
  refine (modifyFile_kept hf fun x _ b hb => by cases hb).bind fun _ => ?_
  cases hpipe : (s.sys.file f).pipe with
  | none => exact .skip
  | some pi =>
    have hpi : pi ∉ K := hs.pipes f hf pi hpipe
    refine (vm_files (Q := fun _ => True) ((pipeclose_kept hpi _).post fun _ s hs =>
      ⟨trivial, hs⟩)).post fun _ s hs => hs.2

lemma setOfile_kept {fd : Fin NOFILE} {o : Option FileNo} :
    Triple E (KeptFiles K m A t p) (setOfile p fd o) fun _ => KeptFiles K m A t p := by
  refine .modify fun s hs => ⟨hs.ram, hs.pipes, hs.idle, ?_⟩
  show (update s.sys.proc p _ p).pagetable = t.root
  rw [update_self]
  exact hs.table

lemma fdalloc_kept :
    Triple E (KeptFiles K m A t p) (fdalloc p f) fun _ => KeptFiles K m A t p := by
  refine .read_bind fun s _ => ?_
  split
  · exact setOfile_kept.bind fun _ => .skip
  · exact .skip

lemma initPipe_kept (hpi : pi ∉ K) : Triple E (Kept K m) (initPipe pi) fun _ => Kept K m :=
  .bind (Q := fun _ => Kept K m) (.modify fun _ hs => hs.setPage hpi _) fun _ =>
    .bind (Q := fun _ => Kept K m) (.modify fun _ hs => hs.setPage hpi _) fun _ =>
      .bind (Q := fun _ => Kept K m) (.modify fun _ hs => hs.setPage hpi _) fun _ =>
        .modify fun _ hs => hs.setPage hpi _

lemma pipealloc_kept :
    Triple AnyStop (KeptFiles K m A t p) (pipealloc lk) fun r s =>
      (∀ f g, r = some (f, g) → f ∈ A ∧ g ∈ A) ∧ KeptFiles K m A t p s := by
  have hnone : ∀ s, KeptFiles K m A t p s → (∀ f g : FileNo, none = some (f, g) →
      f ∈ A ∧ g ∈ A) ∧ KeptFiles K m A t p s := fun s hs => ⟨by simp, hs⟩
  refine filealloc_kept.bind fun r => .assume fun hr => ?_
  cases r with
  | none => exact .pure hnone
  | some f =>
    have hf : f ∈ A := hr f rfl
    refine filealloc_kept.bind fun r => .assume fun hr => ?_
    cases r with
    | none => exact (fileclose_kept hf).bind fun _ => .pure hnone
    | some g =>
      have hg : g ∈ A := hr g rfl
      refine (vm_files kalloc_kept).bind fun pi => .assume fun hpi => ?_
      refine .ite (fun _ => ?_) fun hpi0 => ?_
      · exact (fileclose_kept hf).bind fun _ => (fileclose_kept hg).bind fun _ => .pure hnone
      · have hpiK : pi ∉ K := hpi.resolve_left hpi0
        have hpipe : ∀ x : File, ∀ w, (∀ b, x.pipe = some b → b ∉ K) → ∀ b,
            ({ x with pipe := some pi, writable := w } : File).pipe = some b → b ∉ K := by
          intro x w _ b hb
          exact Option.some.inj hb ▸ hpiK
        refine (vm_files (Q := fun _ => True) ((initPipe_kept hpiK).post fun _ s hs =>
          ⟨trivial, hs⟩)).bind fun _ => .assume fun _ => ?_
        refine (modifyFile_kept hf fun x => hpipe x false).bind fun _ =>
          (modifyFile_kept hg fun x => hpipe x true).bind fun _ => .pure fun s hs => ⟨?_, hs⟩
        rintro f' g' hfg
        cases hfg
        exact ⟨hf, hg⟩

lemma sysPipeAlloc_kept :
    Triple AnyStop (KeptFiles K m A t p) (sysPipeAlloc lk p) fun r s =>
      (∀ rf wf fds, r = some ((rf, wf), fds) → rf ∈ A ∧ wf ∈ A) ∧ KeptFiles K m A t p s := by
  have hnone : ∀ s, KeptFiles K m A t p s → (∀ rf wf fds, (none : Option ((FileNo × FileNo) ×
      (Fin NOFILE × Fin NOFILE))) = some ((rf, wf), fds) → rf ∈ A ∧ wf ∈ A) ∧
      KeptFiles K m A t p s := fun s hs => ⟨by simp, hs⟩
  refine pipealloc_kept.bind fun r => .assume fun hr => ?_
  match r, hr with
  | none, _ => exact .pure hnone
  | some (rf, wf), hr =>
    obtain ⟨hrf, hwf⟩ := hr rf wf rfl
    refine fdalloc_kept.bind fun r => ?_
    cases r with
    | none =>
      exact (fileclose_kept hrf).bind fun _ => (fileclose_kept hwf).bind fun _ => .pure hnone
    | some fd0 =>
      refine fdalloc_kept.bind fun r => ?_
      cases r with
      | none =>
        exact setOfile_kept.bind fun _ => (fileclose_kept hrf).bind fun _ =>
          (fileclose_kept hwf).bind fun _ => .pure hnone
      | some fd1 =>
        refine .pure fun s hs => ⟨?_, hs⟩
        rintro _ _ _ ⟨⟩
        exact ⟨hrf, hwf⟩

/-- A copy to a table of which the page-table pages are kept. -/
lemma Copies.kept {src : List UInt8} (hx : Copies t addr src x) (hspace : UserSpace m t)
    (hnode : ∀ l k, t.node l k ≠ 0 → t.node l k ∈ K) :
    Triple NoStop (Kept K m) x fun _ => Kept K (t.write m addr (t.reach addr src)) := by
  refine .of_run fun s hs => ?_
  obtain ⟨a, hrun⟩ := hx s (hspace.congr fun l k hn => hs.mem _ (hnode l k hn))
  rw [hrun]
  exact ⟨fun b hb => t.write_congr _ (hs.mem b hb), hs.free⟩

/-- `sys_pipe` once it has the descriptors. -/
lemma sysPipe_kept {fdarray : ℕ} {rf wf : FileNo} {fd0 fd1 : Fin NOFILE} {s₁ : State}
    (hspace : UserSpace m t) (hnode : ∀ l k, t.node l k ≠ 0 → t.node l k ∈ K)
    (halloc : (sysPipeAlloc lk p).run s = .ok (some ((rf, wf), (fd0, fd1)), s₁))
    (hrf : rf ∈ A) (hwf : wf ∈ A) (hs₁ : KeptFiles K m A t p s₁) :
    Triple AnyStop (· = s) (sysPipe lk p fdarray) fun _ s' => Kept K
      (t.write m fdarray (t.reach fdarray (leBytes 4 fd0 ++ leBytes 4 fd1))) s'.ram := by
  refine .bind (.of_eq halloc) fun r => .assume fun hr => ?_
  subst hr
  refine .read_bind fun s₂ hs₂ => ?_
  subst hs₂
  rw [hs₁.table]
  have hcopy : Copies t fdarray (leBytes 4 fd0 ++ leBytes 4 fd1) (do
      if (← copyout t.root fdarray (leBytes 4 fd0)) < 0 then return false
      else return !decide ((← copyout t.root ((fdarray + 4) % 2 ^ 64) (leBytes 4 fd1)) < 0)) := by
    refine .copyout_bind false (if_pos (by decide)) fun hacc => ?_
    rw [length_leBytes] at hacc ⊢
    have haddr : t.Accessible fdarray := hacc 0 (by decide)
    rw [if_neg (by decide), haddr.next (by decide)]
    exact .of_copyout true false rfl rfl
  refine .pre ?_ (P := KeptFiles K m A t p) fun s hs => hs ▸ hs₁
  refine (vm_files (Q := fun _ => True) (((hcopy.kept hspace hnode).weaken fun _ he =>
    absurd he id).post fun _ s hs => ⟨trivial, hs⟩)).bind fun ok => .assume fun _ => ?_
  refine .ite (fun _ => .pure fun s hs => hs.ram) fun _ => ?_
  exact setOfile_kept.bind fun _ => setOfile_kept.bind fun _ =>
    (fileclose_kept hrf).bind fun _ => (fileclose_kept hwf).bind fun _ =>
      .pure fun s hs => hs.ram

end Files

/-! ## `wait` -/

/-- The pages of `K` are also out of the way of code that works on the table of `q`. -/
lemma Frozen.notMem_focus_self (hK : Frozen lk G q K) : ∀ b ∈ K, b ∉ G.focus lk (some q) := by
  intro b hb hfocus
  obtain ⟨x, hx, hpage⟩ := hK b hb hfocus.1
  refine hfocus.2 x (fun c hc => ?_) hpage
  subst hc
  cases c <;> simp [embed, Away] at hx

lemma Frozen.takeTrapframe (hK : Frozen lk G q K) : Frozen lk (G.takeTrapframe q 0) q K := by
  refine hK.congr fun x hx => ?_
  cases x with
  | hand j => exact absurd hx id
  | trapframe r => exact update_of_ne hx ..
  | _ => rfl

/-- `freeproc` writes to pages of the process it frees only. -/
lemma freeproc_frozen (hs : Space lk (k.proc q) (G.table (some q)) (G.trapframe q))
    (hhand : G.hand 0 = 0) (hK : Frozen lk G q K) :
    Triple NoStop (At lk K m k G) (freeproc lk q) fun _ s => ∀ b ∈ K, s.ram.mem b = m b := by
  refine .of_pre fun s₀ h₀ => proc_bind ?_
  have hpool : (k.proc q).trapframe ≠ 0 → (k.proc q).trapframe ∈ lk.pool := by
    rw [← hs.trapframe]
    exact h₀.2.trapframe_mem (p := q) rfl
  let G₁ : Owners := { G with trapframe := update G.trapframe q 0 }
  have hK₁ : Frozen lk G₁ q K := by
    refine hK.congr fun x hx => ?_
    cases x with
    | trapframe r => exact update_of_ne hx ..
    | _ => rfl
  have htrap : Triple NoStop (At lk K m k G)
      (if (k.proc q).trapframe ≠ 0 then vm (kfree lk (k.proc q).trapframe) else pure ())
      fun _ => At lk K m k G₁ := by
    refine .ite (fun hne => ?_) fun heq => ?_
    · rw [← hs.trapframe] at hne ⊢
      refine .pre (P := At lk K m k (G.takeTrapframe q 0)) ?_
        fun s h => h.owners fun r hg => hg.takeTrapframe (p := q) (j := 0) hhand hne
      refine (vm_focus none hK.takeTrapframe.notMem_focus (R := fun _ t h =>
        t = G.table none ∧ h = G.hand) fun D m hD _ => (kfree_hand hD (j := 0)
          (by simp [Owners.takeTrapframe]) hne).post fun _ s hc => ⟨_, _, ⟨rfl, ?_⟩, hc⟩).post
        fun _ s h => ?_
      · simp [Owners.takeTrapframe, hand_restore hhand]
      · obtain ⟨t, h', ⟨rfl, rfl⟩, h⟩ := h
        have hG : (G.takeTrapframe q 0).set none (G.table none) G.hand = G₁ := by
          simp [Owners.takeTrapframe, Owners.set, G₁]
        rwa [hG] at h
    · have hzero : G.trapframe q = 0 := hs.trapframe.trans (by simpa using heq)
      refine .pure fun s h => ?_
      rwa [show G₁ = G by simp [G₁, ← hzero]]
  refine htrap.bind fun _ => (modifySys_spec _).bind fun _ => ?_
  generalize hk₁ : k.setProc q _ = k₁
  have htable : Triple NoStop (At lk K m k₁ G₁)
      (if (k.proc q).pagetable ≠ 0 then vm (procFreepagetable lk (k.proc q).pagetable (k.proc q).sz)
        else pure ()) fun _ s => ∀ b ∈ K, s.ram.mem b = m b := by
    refine .ite (fun hne => ?_) fun heq => .pure fun s h => h.2.frozen
    obtain ⟨htf, g, hshape⟩ := hs.shape hne
    rw [← hs.root]
    refine (vm_focus (some q) (G := G₁) hK₁.notMem_focus_self (R := fun _ t h =>
      t = Table.empty ∧ h = G.hand) fun D m hD _ =>
        (procFreepagetable_spec hD hhand hshape (hpool htf) htf).post fun _ s hc =>
          ⟨_, _, ⟨rfl, rfl⟩, hc⟩).post fun _ s h => ?_
    obtain ⟨t, h', -, h⟩ := h
    exact h.2.frozen
  exact htable.bind fun _ => .modify fun s h => h

/-- Copies to a process write to its own pages. -/
lemma Global.write {g : Option ℕ} {tf n : ℕ} {src : List UInt8} {r : Ram}
    (hg : Global lk ∅ m G r) (hs : Shape lk tf n g (G.table (some p)))
    (hacc : ∀ i < src.length, (G.table (some p)).addr (addr + i) ≠ 0) :
    Global lk ∅ m G { r with mem := (G.table (some p)).write r.mem addr src } := by
  induction src generalizing r addr with
  | nil => exact hg
  | cons c src ih =>
    have hne : (G.table (some p)).addr addr ≠ 0 := hacc 0 (Nat.succ_pos _)
    obtain ⟨hv, haddr⟩ := hs.addr_eq hne
    have hpage : G.page (.leaf (some p) (vpn addr)) = (G.table (some p)).addr addr := by
      rw [haddr]
      exact if_pos (hv.trans_le hs.le)
    refine ih (hg.touch hpage hne (by simp) (by simp) (by simp) _) fun i hi => ?_
    rw [Nat.add_right_comm]
    exact hacc (i + 1) (Nat.succ_lt_succ hi)

lemma vm_run {a : α} {r : Ram} (h : x.run s.ram = .ok (a, r)) :
    (vm x).run s = .ok (a, { s with ram := r }) := by
  show (x.run s.ram >>= fun b => Except.ok (b.1, { s with ram := b.2 })) = _
  rw [h]
  rfl

lemma wait_copies (hs : Slots lk s.sys.proc G) (hg : Global lk ∅ m G s.ram)
    (hp : (s.sys.proc p).state = .runnable) (hspace : UserSpace s.ram.mem (G.table (some p)))
    (hK : ∀ q, q ≠ p → Frozen lk G q K) (addr : BitVec 64) :
    Triple AnyStop (· = s) (wait lk p addr.toNat) fun _ s' => ∀ b ∈ K, s'.ram.mem b =
      (G.table (some p)).write s.ram.mem addr.toNat ((G.table (some p)).reach addr.toNat
        ((Copy.wait addr).bytes lk p s)) b := by
  obtain ⟨-, -, hroot, g, hshape⟩ := hs.live (p := p) (by simp [hp])
  refine .read_bind fun s₀ hs₀ => ?_
  subst hs₀
  unfold Copy.bytes
  dsimp only
  cases hfind : s₀.sys.exited p with
  | none => exact .ite (fun _ => .throw trivial) fun _ => .pure fun s hs b _ => hs ▸ rfl
  | some q =>
    have hqp : q ≠ p := by
      rintro rfl
      have hq := Sys.zombie_of_exited hfind
      rw [hp] at hq
      cases hq
    dsimp only
    rw [← hroot]
    obtain ⟨src, hsrc⟩ : ∃ src, src = if addr.toNat = 0 then []
      else leBytes 4 (s₀.sys.proc q).xstate.toNat := ⟨_, rfl⟩
    have hcopy : Copies (G.table (some p)) addr.toNat src (do
        if addr.toNat ≠ 0 then
          return decide ((← copyout (G.table (some p)).root addr.toNat
            (leBytes 4 (s₀.sys.proc q).xstate.toNat)) < 0)
        else return false) := by
      by_cases h0 : addr.toNat = 0
      · rw [hsrc, if_pos h0, if_neg (not_not_intro h0)]
        exact .pure _
      · rw [hsrc, if_neg h0, if_pos h0]
        exact .of_copyout _ _ rfl rfl
    obtain ⟨failed, hrun⟩ := hcopy s₀.ram hspace
    rw [← hsrc]
    refine .bind (.of_eq (vm_run hrun)) fun a => .assume fun ha => ?_
    refine .ite (fun _ => .pure fun s hs b _ => hs ▸ rfl) fun _ => ?_
    have hacc : ∀ i < ((G.table (some p)).reach addr.toNat src).length,
        (G.table (some p)).addr (addr.toNat + i) ≠ 0 := fun i hi =>
      hspace.accessible_iff.2 ((Table.lt_length_reach.1 hi).2 i le_rfl)
    have hwrite := hg.write hshape hacc
    have hfree := freeproc_frozen (m := (G.table (some p)).write s₀.ram.mem addr.toNat
      ((G.table (some p)).reach addr.toNat src)) (hs.slot q).space (hs.hand 0) (hK q hqp)
    refine .bind (.pre (hfree.weaken fun _ _ => trivial) ?_) fun _ => .skip
    rintro _ rfl
    exact ⟨rfl, hwrite.rebase K⟩

/-! ## Read-only pages -/

/-- The page-table pages, and the pages that are mapped without `PTE_W`. -/
def Table.readonly (t : Table) : Set ℕ :=
  {b | (∃ l k, t.node l k = b ∧ b ≠ 0) ∨
    ∃ v, t.leaf v ≠ 0 ∧ pteW (t.leaf v) = false ∧ pte2pa (t.leaf v) = b}

/-- A place of the page-table pages of process `p`, or of its pages without `PTE_W`. -/
def ReadonlyPlace (t : Table) (p : Slot) (x : Place) : Prop :=
  (∃ l k, x = .node (some p) l k) ∨ ∃ v, x = .leaf (some p) v ∧ pteW (t.leaf v) = false

section Readonly

variable {tf n b : ℕ} {g : Option ℕ} {r : Ram}

/-- Such a page is at such a place, or it is the trampoline. -/
lemma Global.readonly_place (hs : Shape lk tf n g (G.table (some p)))
    (hb : b ∈ (G.table (some p)).readonly) :
    (∃ x, ReadonlyPlace (G.table (some p)) p x ∧ G.page x = b) ∨ b = lk.trampoline := by
  obtain ⟨l, k, hnode, -⟩ | ⟨v, hleaf, hw, hpage⟩ := hb
  · exact .inl ⟨.node (some p) l k, .inl ⟨l, k, rfl⟩, hnode⟩
  · by_cases hv : v < UPAGES
    · exact .inl ⟨.leaf (some p) v, .inr ⟨v, rfl, hw⟩, (if_pos hv).trans hpage⟩
    · right
      by_cases h₁ : v = UPAGES
      · rw [h₁, hs.trapframe, pteW, testBit_mkPte tf (by decide) (by omega)] at hw
        exact absurd hw (by decide)
      · by_cases h₂ : v = UPAGES + 1
        · rw [← hpage, h₂, hs.trampoline]
          exact pte2pa_mkPte lk.trampoline_aligned (by decide)
        · exact absurd (hs.above v (by omega)) hleaf

lemma trampoline_notMem_pool (lk : Link) : lk.trampoline ∉ lk.pool := by
  intro hmem
  have h₁ := hmem.2.1
  have h₂ := lk.trampoline_lt
  unfold PGSIZE at h₂
  omega

/-- A page at another place is none of them. -/
lemma Global.notMem_readonly (hg : Global lk K m G r) (hs : Shape lk tf n g (G.table (some p)))
    {x : Place} (hx : G.page x = b) (hb : b ≠ 0)
    (hnot : ¬ReadonlyPlace (G.table (some p)) p x) : b ∉ (G.table (some p)).readonly := by
  intro hmem
  have hpool : b ∈ lk.pool := hx ▸ hg.owned.mem x (hx ▸ hb)
  obtain ⟨y, hy, hpage⟩ | rfl := Global.readonly_place hs hmem
  · obtain rfl := hg.owned.inj x y (hx ▸ hb) (hx.trans hpage.symm)
    exact hnot hy
  · exact trampoline_notMem_pool lk hpool

/-- None of these pages is free. -/
lemma Global.free_readonly (hg : Global lk K m G r) (hs : Shape lk tf n g (G.table (some p))) :
    ∀ b ∈ r.free, b ∉ (G.table (some p)).readonly := by
  intro b hb hmem
  have hpool := hg.sub b hb
  obtain ⟨x, -, hpage⟩ | rfl := Global.readonly_place hs hmem
  · refine hg.owned.used_cell (x := x) ?_ (hpage ▸ hb)
    rw [hpage]
    exact ne_of_mem_of_not_mem hpool (zero_notMem_pool lk)
  · exact trampoline_notMem_pool lk hpool

/-- Code that works on another process is out of the way of these pages. -/
lemma Global.frozen_readonly (hs : Shape lk tf n g (G.table (some p))) (hq : q ≠ p) :
    Frozen lk G q (G.table (some p)).readonly := by
  intro b hb hpool
  obtain ⟨x, hx, hpage⟩ | rfl := Global.readonly_place hs hb
  · have hpq : some p ≠ some q := fun h => hq (Option.some.inj h).symm
    obtain ⟨l, k, rfl⟩ | ⟨v, rfl, -⟩ := hx
    · exact ⟨.node (some p) l k, ⟨by simp, hpq⟩, hpage⟩
    · exact ⟨.leaf (some p) v, ⟨by simp, hpq⟩, hpage⟩
  · exact absurd hpool (trampoline_notMem_pool lk)

/-- The page of a pipe is none of these pages. -/
lemma Global.pipe_notMem_readonly (hg : Global lk K m G r)
    (hs : Shape lk tf n g (G.table (some p))) (hpipe : G.pipe b = true) :
    b ∉ (G.table (some p)).readonly := by
  refine hg.notMem_readonly hs (x := .pipe b) (if_pos hpipe) (hg.pipe_ne b hpipe) ?_
  rintro (⟨l, k, hx⟩ | ⟨v, hx, -⟩)
  · cases hx
  · cases hx

end Readonly

lemma State.owners_ends (s : State) : s.owners.ends = s.sys.hasEnd := by
  simp only [State.owners]

lemma Sys.hasEnd_iff {b : ℕ} {w : Bool} : k.hasEnd b w = true ↔
    ∃ p fd f, (k.proc p).ofile fd = some f ∧ (k.file f).pipe = some b ∧
      (k.file f).writable = w := by
  unfold Sys.hasEnd
  rw [decide_eq_true_eq]

/-- The bytes were copied, and nothing else was done to page-table pages and to pages without
`PTE_W`. -/
def Copied (t : Table) (addr : ℕ) (src : List UInt8) (s s' : State) : Prop :=
  ∀ b ∈ t.readonly, s'.ram.mem b = t.write s.ram.mem addr (t.reach addr src) b

lemma Copies.copied {src : List UInt8} (hx : Copies t addr src x) (hspace : UserSpace s.ram.mem t) :
    Triple AnyStop (· = s) (vm x) fun _ => Copied t addr src s := by
  obtain ⟨a, hrun⟩ := hx s.ram hspace
  refine (Triple.of_eq (vm_run hrun)).post fun _ s' hs' b _ => ?_
  rw [hs'.2]

lemma piperead_copied (hspace : UserSpace s.ram.mem t) (happ : Apart t pi) (hpi : pi ∉ t.readonly)
    (addr : BitVec 64) (n : BitVec 32) :
    Triple AnyStop (· = s) (vm (piperead t.root pi addr.toNat n)) fun _ =>
      Copied t addr.toNat ((ring (s.ram.mem pi)).contents.take n.toInt.toNat) s := by
  by_cases hready : (ring (s.ram.mem pi)).Empty ∧ (s.ram.mem pi).ld 4 WRITEOPEN ≠ 0
  · have hsleep : (piperead t.root pi addr.toNat n).run s.ram = .error .disabled := by
      rw [piperead, run_get_bind]
      dsimp only
      rw [if_pos ⟨(ring_empty_iff _).1 hready.1, hready.2⟩]
      rfl
    refine .of_run fun s₀ hs₀ => ?_
    subst hs₀
    show Post _ _ ((piperead t.root pi addr.toNat n).run s₀.ram >>= _)
    rw [hsleep]
    exact trivial
  · obtain ⟨k, r, hrun, hdel⟩ := piperead_run hspace happ addr n hready
    refine (Triple.of_eq (vm_run hrun)).post fun _ s' hs' b hb => ?_
    rw [hs'.2, hdel.reach_eq]
    exact hdel.mem b (ne_of_mem_of_not_mem hb hpi)

section Process

variable (h : Inv lk s) (hp : (s.sys.proc p).state = .runnable)

include h hp

lemma readPipe_copied (fd : Fin NOFILE) (addr : BitVec 64) (n : BitVec 32) :
    Triple AnyStop (· = s) (readPipe p fd addr.toNat n) fun _ =>
      Copied (s.owners.table (some p)) addr.toNat ((Copy.readPipe fd addr n).bytes lk p s) s := by
  have hspace := h.userSpace (p := p) (by simp [hp])
  obtain ⟨hslots, hg⟩ := h.owners
  obtain ⟨-, -, hroot, g, hshape⟩ := hslots.live (p := p) (by simp [hp])
  unfold Copy.bytes
  refine .read_bind fun s₀ hs₀ => ?_
  subst hs₀
  dsimp only
  cases hf : (s₀.sys.proc p).ofile fd with
  | none => exact .pure fun s hs b _ => hs ▸ rfl
  | some f =>
    refine .read_bind fun s₁ hs₁ => ?_
    subst hs₁
    dsimp only
    cases hpipe : (s₁.sys.file f).pipe with
    | none => exact .pure fun s hs b _ => hs ▸ rfl
    | some pi =>
      dsimp only
      by_cases hw : (s₁.sys.file f).writable = true
      · rw [if_pos hw, if_pos hw]
        exact .pure fun s hs b _ => hs ▸ rfl
      · have hend : s₁.owners.ends pi (s₁.sys.file f).writable = true := by
          rw [State.owners_ends, Sys.hasEnd_iff]
          exact ⟨p, fd, f, hf, hpipe, rfl⟩
        have hisPipe := Owners.pipe_of_ends hend
        rw [if_neg hw, if_neg hw, ← hroot]
        exact piperead_copied hspace (h.apart (by simp [hp]) hisPipe)
          (hg.pipe_notMem_readonly hshape hisPipe) addr n

lemma sysPipe_copied (fdarray : BitVec 64) :
    Triple AnyStop (· = s) (sysPipe lk p fdarray.toNat) fun _ =>
      Copied (s.owners.table (some p)) fdarray.toNat ((Copy.pipe fdarray).bytes lk p s) s := by
  have hspace := h.userSpace (p := p) (by simp [hp])
  obtain ⟨hslots, hg⟩ := h.owners
  obtain ⟨-, -, hroot, g, hshape⟩ := hslots.live (p := p) (by simp [hp])
  have hkept : KeptFiles (s.owners.table (some p)).readonly s.ram.mem
      {f | (s.sys.file f).ref = 0} (s.owners.table (some p)) p s := by
    refine ⟨⟨fun _ _ => rfl, hg.free_readonly hshape⟩, fun f hf b hb => ?_, fun f hf => hf,
      hroot.symm⟩
    obtain ⟨m, P, G, -, -, -, e, hfiles, -⟩ := h
    rw [hfiles.idle hf] at hb
    cases hb
  unfold Copy.bytes
  dsimp only
  cases halloc : (sysPipeAlloc lk p).run s with
  | error e =>
    refine .of_run fun s₀ hs₀ => ?_
    subst hs₀
    show Post _ _ (StateT.run (sysPipeAlloc lk p >>= _) _)
    rw [StateT.run_bind, halloc]
    exact trivial
  | ok r =>
    obtain ⟨hA, hs₁⟩ := (sysPipeAlloc_kept.run hkept).of_ok halloc
    match r, hA with
    | (none, s₁), _ =>
      refine .bind (.of_eq halloc) fun r => .assume fun hr => ?_
      subst hr
      exact .pure fun s hs b hb => hs ▸ hs₁.ram.mem b hb
    | (some ((rf, wf), (fd0, fd1)), s₁), hA =>
      obtain ⟨hrf, hwf⟩ := hA rf wf _ rfl
      exact (sysPipe_kept hspace (fun l k hn => .inl ⟨l, k, rfl, hn⟩) halloc hrf hwf hs₁).post
        fun _ s hs => hs.mem

lemma Copy.code_spec (c : Copy) :
    Triple AnyStop (· = s) (c.code lk p) fun _ =>
      Copied (s.owners.table (some p)) c.addr (c.bytes lk p s) s := by
  have hspace := h.userSpace (p := p) (by simp [hp])
  obtain ⟨hslots, hg⟩ := h.owners
  obtain ⟨-, -, hroot, g, hshape⟩ := hslots.live (p := p) (by simp [hp])
  cases c with
  | readPipe fd addr n => exact readPipe_copied h hp fd addr n
  | readInode content off addr n =>
    refine .read_bind fun s₀ hs₀ => ?_
    subst hs₀
    rw [← hroot]
    exact (readiUser_copies content off n).copied hspace
  | readConsole input addr n =>
    refine .read_bind fun s₀ hs₀ => ?_
    subst hs₀
    rw [← hroot]
    exact (consoleread_copies input n).copied hspace
  | fstat st addr =>
    refine .read_bind fun s₀ hs₀ => ?_
    subst hs₀
    rw [← hroot]
    exact (filestat_copies st).copied hspace
  | pipe fdarray => exact sysPipe_copied h hp fdarray
  | wait addr =>
    refine (wait_copies hslots hg hp hspace (fun q hq => Global.frozen_readonly hshape hq)
      addr).bind fun r => ?_
    cases r with
    | none => exact .skip
    | some q => exact .skip

end Process

/-- A state in which `kalloc` fails as `deny` says. -/
def State.deny (s : State) (deny : ℕ → Bool) : State :=
  { s with ram := { s.ram with deny := deny } }

/-- The outcomes of `kalloc` do not matter to the invariant. -/
lemma Inv.deny (h : Inv lk s) (deny : ℕ → Bool) : Inv lk (s.deny deny) := by
  obtain ⟨m, P, G, hs, hrun⟩ := h
  exact ⟨m, P, G, hs, hrun.deny deny⟩

lemma Stat.length_bytes (st : Stat) : st.bytes.length = 24 := by
  simp [Stat.bytes]

section Calls

variable {c : Copy} {deny : ℕ → Bool} {r : ℤ}

/-- A call that returns has copied its bytes. -/
lemma Copy.call_spec (h : Inv lk s) (hrun : (c.call lk p deny).run s = .ok (r, s')) :
    (s.sys.proc p).state = .runnable ∧
      Copied (s.owners.table (some p)) c.addr (c.bytes lk p (s.deny deny)) s s' := by
  have hcall : (c.call lk p deny).run s = (if (s.sys.proc p).state = .runnable then c.code lk p
      else throw .disabled : M ℤ).run (s.deny deny) := rfl
  rw [hcall] at hrun
  by_cases hp : (s.sys.proc p).state = .runnable
  · rw [if_pos hp] at hrun
    exact ⟨hp, ((c.code_spec (h.deny deny) hp).run rfl).of_ok hrun⟩
  · rw [if_neg hp] at hrun
    cases hrun

/-- A byte that arrives in a page without `PTE_W` is there afterwards. -/
lemma Copied.byte {src : List UInt8} (hspace : UserSpace s.ram.mem t)
    (h : Copied t addr src s s') {i : ℕ} (hi : i < src.length)
    (hacc : ∀ j ≤ i, t.Accessible (addr + j)) (hw : pteW (t.leaf (vpn (addr + i))) = false) :
    t.leaf (vpn (addr + i)) ≠ 0 ∧ t.byte s'.ram.mem (addr + i) = src.getD i 0 := by
  have hlt := Table.lt_length_reach.2 ⟨hi, hacc⟩
  have hai := hacc i le_rfl
  have hleaf : t.leaf (vpn (addr + i)) ≠ 0 := by
    intro h0
    rw [Table.Accessible, h0] at hai
    exact absurd hai.2.1 (by decide)
  have hreach : ∀ j < (t.reach addr src).length, t.Accessible (addr + j) :=
    fun j hj => (Table.lt_length_reach.1 hj).2 j le_rfl
  have hwrite := hspace.byte_write hreach hai
  rw [if_pos ⟨Nat.le_add_right _ _, Nat.add_lt_add_left hlt _⟩, Nat.add_sub_cancel_left,
    Table.getD_reach hlt] at hwrite
  refine ⟨hleaf, ?_⟩
  rw [← hwrite, Table.byte, h _ (.inr ⟨_, hleaf, hw, hai.addr_eq.symm⟩), ← Table.byte]

/-- Every byte that a copy of `src` to `addr` stores in a page without `PTE_W` is there already. -/
def Table.Harmless (t : Table) (mem : ℕ → Page) (addr : ℕ) (src : List UInt8) : Prop :=
  ∀ i < src.length, (∀ j ≤ i, t.Accessible (addr + j)) →
    pteW (t.leaf (vpn (addr + i))) = false → t.byte mem (addr + i) = src.getD i 0

end Calls

end Xv6.Vm
