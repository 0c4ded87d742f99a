import Xv6.Fs.Calls
import Xv6.Fs.Images

/-!
# The inode table runs full

`iget` panics if all `NINODE` entries of the inode table are in use. A call holds at most two
references more than those of the open files and the current directories, so it does not happen
while at least three entries are free. But nothing keeps the processes from opening `NINODE`
different files: there may be `NFILE` open files, and `NOFILE` of one process.
-/

namespace Xv6.Fs

open Xv6.Lib
open Xv6.Process (Slot Stop)
open Function (update update_of_ne update_self)

variable {d : Disk} {s : State}

/-! ## A file system with many files -/

/-- The entries of a root directory with 51 files, whose names are single characters. -/
def crowdEntries : List Dirent :=
  ⟨1, strncpy dot⟩ :: ⟨1, strncpy dotdot⟩ ::
    (List.range 51).map fun k => ⟨.ofNat 16 (k + 2), strncpy [.ofNat (k + 128)]⟩

/-- A root directory with 51 empty files. -/
def crowd : List Node := .ofEntries 1 crowdEntries :: List.replicate 51 (newNode T_FILE 0 0 1)

lemma crowdEntries_ok : ∀ de ∈ crowdEntries, de.name.length = DIRSIZ ∧ de.inum.toNat < 53 := by
  decide +kernel

lemma crowd_drawable : Drawable crowd where
  pos := by decide
  le := by decide
  type := by decide +kernel
  nlink := by decide +kernel
  data := by decide +kernel
  dirs n hn hd := by
    rw [crowd, List.mem_cons, List.mem_replicate] at hn
    obtain rfl | ⟨-, rfl⟩ := hn
    · exact proper_ofEntries (fun de h => (crowdEntries_ok de h).1)
        fun de h => (crowdEntries_ok de h).2.trans (by decide)
    · exact absurd hd (by decide)

/-- The files of the image. -/
abbrev crowdFiles : ℕ → Option Node := view (imageSb 52) (image crowd)

lemma crowdFiles_root : crowdFiles ROOTINO = some (.ofEntries 1 crowdEntries) :=
  crowd_drawable.view_succ 0

lemma crowdFiles_file {k : ℕ} (hk : k < 51) : crowdFiles (k + 2) = some (newNode T_FILE 0 0 1) := by
  refine (crowd_drawable.view_succ (k + 1)).trans ?_
  rw [crowd, List.getElem?_cons_succ, List.getElem?_replicate, if_pos hk]

lemma crowdFiles_closed : Closed crowdFiles := by
  refine crowd_drawable.closed fun n hn hd => ?_
  rw [crowd, List.mem_cons, List.mem_replicate] at hn
  obtain rfl | ⟨-, rfl⟩ := hn
  · have hlen : crowd.length = 52 := by decide
    refine ⟨1, crowdEntries, rfl, fun de hde => ?_⟩
    obtain ⟨hname, hlt⟩ := crowdEntries_ok de hde
    exact ⟨hname, by omega⟩
  · exact absurd hd (by decide)

/-- The path of file `k`. -/
def crowdPath (k : ℕ) : List UInt8 := [slash, .ofNat (k + 128)]

/-- The path as it is in user memory. -/
def crowdArg (k : ℕ) : ℕ → Option UInt8 := userPath (crowdPath k)

lemma argstr_crowdArg : ∀ k < 51, argstr (crowdArg k) = some (crowdPath k) := by
  decide +kernel

lemma elems_crowdPath : ∀ k < 51, elems (crowdPath k) = [[.ofNat (k + 128)]] := by
  decide +kernel

lemma crowdEntries_find : ∀ k < 51, (crowdEntries.findIdx? fun de => decide (de.inum ≠ 0 ∧
    namecmp [.ofNat (k + 128)] de.name)).map (fun j =>
      (j, (crowdEntries.getD j .zero).inum.toNat)) = some (k + 2, k + 2) := by
  decide +kernel

lemma follow_crowdPath {k : ℕ} (hk : k < 51) :
    follow crowdFiles ROOTINO (elems (crowdPath k)) = some (k + 2) := by
  have hname : ∀ de ∈ crowdEntries, de.name.length = DIRSIZ := fun de h => (crowdEntries_ok de h).1
  obtain ⟨j, hj, hval⟩ := Option.map_eq_some_iff.1 (crowdEntries_find k hk)
  obtain ⟨rfl, hinum⟩ := Prod.mk.inj hval
  obtain ⟨hlt, -, -⟩ := List.findIdx?_eq_some_iff_getElem.1 hj
  have hlookup : (Node.ofEntries 1 crowdEntries).lookup [.ofNat (k + 128)] = _ :=
    lookup_ofEntries hname _
  rw [hj] at hlookup
  rw [elems_crowdPath k hk, follow_cons, child_of_lookup crowdFiles_root rfl hlookup,
    Option.bind_some, follow_nil, Node.entry_ofEntries hname hlt,
    ← List.getD_eq_getElem _ .zero hlt, hinum]

/-! ### The processes -/

/-- The first process makes three children. -/
def forks : List (Slot × Call) := [(0, .fork 1 true), (0, .fork 2 true), (0, .fork 3 true)]

/-- Then each of the four opens as many files as it can. -/
def opens : List (Slot × Call) :=
  (List.range 51).map fun k => (Fin.ofNat _ (k / NOFILE), .open (crowdArg k) O_RDONLY)

/-- The state after `forks`. -/
def forked (d : Disk) : State :=
  match calls forks (boot d) with
  | .ok s => s
  | .error _ => boot d

lemma forks_run (d : Disk) : calls forks (boot d) = .ok (forked d) := rfl

lemma forked_reachable (d : Disk) : Reachable d (forked d) :=
  calls_reachable .refl (forks_run d)

lemma forked_inUse (d : Disk) : inUse (forked d) = 1 := rfl

lemma forks_opens_run (d : Disk) : calls (forks ++ opens) (boot d) = calls opens (forked d) := by
  rw [calls_append, forks_run]
  rfl

/-! ## Runs with few open files -/

/-- No call panics for want of an entry of the inode table, if at least three are free when it
starts. -/
theorem inode_table_suffices (hd : Formatted d) (hs : Reachable d s) (hroom : inUse s + 2 < NINODE)
    (p : Slot) (c : Call) : call p c s ≠ .error (.panic "iget: no inodes") := by
  obtain ⟨hsettled, hquiet, -, -⟩ := reachable_settled hd hs
  have hpost := call_spec (E := fun err => err ≠ .panic "iget: no inodes") hsettled hquiet
    (fun hfull => absurd hroom (Nat.not_lt.2 hfull)) (fun _ _ hne => hne) p c
  intro herr
  exact hpost.of_error herr rfl

/-- The table after the three calls of `fork` has room. -/
theorem inode_table_suffices_forked : Formatted (image crowd) ∧
    Reachable (image crowd) (forked (image crowd)) ∧ inUse (forked (image crowd)) = 1 ∧
    ∀ p c, call p c (forked (image crowd)) ≠ .error (.panic "iget: no inodes") :=
  ⟨crowd_drawable.formatted, forked_reachable _, forked_inUse _,
    inode_table_suffices crowd_drawable.formatted (forked_reachable _)
      (by rw [forked_inUse]; decide)⟩

/-! ## A run that opens them -/

/-- The first `m` files are open. -/
structure Crowded (m : ℕ) (a : Abs) : Prop where
  node : a.node = crowdFiles
  cwd : ∀ p : Slot, p.val < 4 → (a.proc p).cwd ≠ none
  fds : ∀ p : Slot, p.val < 4 →
    (Finset.univ.filter fun fd => (a.proc p).ofile fd ≠ none).card ≤ m - NOFILE * p
  files : (Finset.univ.filter fun f => (a.ftable f).ref ≠ 0).card ≤ m
  opened : ∀ k < m, ∃ f e, (a.ftable f).target = some e ∧ a.inum e = k + 2

lemma forked_crowded : Crowded 0 (forked (image crowd)).abs where
  node := by
    show view (readsb (image crowd)) (image crowd) = _
    rw [image_readsb crowd_drawable.le]
    rfl
  cwd p hp := by
    obtain ⟨p, h⟩ := p
    dsimp only at hp
    interval_cases p <;> exact Option.some_ne_none 0
  fds p hp := by
    have hnone : ((forked (image crowd)).proc p).ofile = fun _ => none := by
      obtain ⟨p, h⟩ := p
      dsimp only at hp
      interval_cases p <;> rfl
    simp [State.abs, hnone]
  files := by
    have hfree : (forked (image crowd)).ftable = fun _ => File.zero := rfl
    simp [State.abs, hfree, File.zero]
  opened k hk := absurd hk (Nat.not_lt_zero k)

section Step

variable {m : ℕ} {a : Abs} {p : Slot}

/-- The only stop is the full inode table. -/
lemma Crowded.stops (h : Crowded m a) : Stops (· = .panic "iget: no inodes") a := by
  refine ⟨fun _ => rfl, fun hclosed => ?_, fun hroot => ?_⟩
  · rw [h.node] at hclosed
    exact absurd crowdFiles_closed hclosed
  · rw [h.node, crowdFiles_root] at hroot
    cases hroot

lemma Crowded.follow (h : Crowded m a) (hm : m < 51) :
    follow a.node (a.start p (crowdPath m)) (elems (crowdPath m)) = some (m + 2) := by
  rw [show a.start p (crowdPath m) = ROOTINO from if_pos rfl, h.node, follow_crowdPath hm]

/-- Nothing stands in the way of opening the next file. -/
lemma Crowded.not_refuses (h : Crowded m a) (hm : m < 51) (hp : p.val = m / NOFILE) :
    ¬a.Refuses p (crowdPath m) := by
  have hp4 : p.val < 4 := by
    unfold NOFILE at hp
    omega
  rintro (hnone | ⟨i, n, hi, hn, hdev⟩ | hfull | hfull)
  · rw [h.follow hm] at hnone
    cases hnone
  · rw [h.follow hm] at hi
    obtain rfl := Option.some.inj hi
    rw [h.node, crowdFiles_file hm] at hn
    obtain rfl := Option.some.inj hn
    exact absurd hdev (by decide)
  · have hfiles := h.files
    rw [Finset.filter_true_of_mem fun f _ => hfull f, Finset.card_univ, Fintype.card_fin] at hfiles
    unfold NFILE at hfiles
    omega
  · have hfds := h.fds p hp4
    rw [Finset.filter_true_of_mem fun fd _ => hfull fd, Finset.card_univ, Fintype.card_fin] at hfds
    unfold NOFILE at hp hfds
    omega

/-- One more file is open. -/
lemma Crowded.openAt (h : Crowded m a) (hfree : a.Free) (hp : p.val = m / NOFILE)
    {fd : Fin NOFILE} {f : FileNo} {e : Ino} {n : Node} (hf : (a.ftable f).ref = 0)
    (hpin : a.pinned e ≠ 0 → a.inum e = m + 2) :
    Crowded (m + 1) (a.openAt p fd f e (m + 2) n O_RDONLY) := by
  have hopen : a.openAt p fd f e (m + 2) n O_RDONLY = ((a.setOfile p fd (some f)).setInum e
      (m + 2)).setFile f (File.opened { a.ftable f with ref := 1 } e n O_RDONLY) := by
    unfold Abs.openAt
    exact if_neg fun hc => hc.1 (by decide)
  have hft : ∀ f', f' ≠ f → (a.openAt p fd f e (m + 2) n O_RDONLY).ftable f' = a.ftable f' := by
    intro f' hne
    rw [hopen]
    exact update_of_ne hne ..
  have hftf : (a.openAt p fd f e (m + 2) n O_RDONLY).ftable f =
      File.opened { a.ftable f with ref := 1 } e n O_RDONLY := by
    rw [hopen]
    exact update_self ..
  have hinum : (a.openAt p fd f e (m + 2) n O_RDONLY).inum =
      update a.inum e (m + 2) := by
    rw [hopen]
    rfl
  have hproc : (a.openAt p fd f e (m + 2) n O_RDONLY).proc = update a.proc p
      { a.proc p with ofile := update (a.proc p).ofile fd (some f) } := by
    rw [hopen]
    rfl
  refine ⟨?_, fun q hq => ?_, fun q hq => ?_, ?_, fun k hk => ?_⟩
  · rw [hopen]
    exact h.node
  · rw [hproc]
    by_cases hqp : q = p
    · subst hqp
      rw [update_self]
      exact h.cwd q hq
    · rw [update_of_ne hqp]
      exact h.cwd q hq
  · rw [hproc]
    have hle := h.fds q hq
    by_cases hqp : q = p
    · subst hqp
      have hsub : (Finset.univ.filter fun fd' =>
          update (a.proc q).ofile fd (some f) fd' ≠ none) ⊆
          insert fd (Finset.univ.filter fun fd' => (a.proc q).ofile fd' ≠ none) := by
        intro fd' hfd'
        rw [Finset.mem_insert, or_iff_not_imp_left]
        intro hne
        rw [Finset.mem_filter, update_of_ne hne] at hfd'
        exact Finset.mem_filter.2 hfd'
      have hcard := (Finset.card_le_card hsub).trans (Finset.card_insert_le ..)
      rw [update_self]
      refine hcard.trans ?_
      unfold NOFILE at *
      omega
    · rw [update_of_ne hqp]
      omega
  · have hsub : (Finset.univ.filter fun f' =>
        ((a.openAt p fd f e (m + 2) n O_RDONLY).ftable f').ref ≠ 0) ⊆
        insert f (Finset.univ.filter fun f' => (a.ftable f').ref ≠ 0) := by
      intro f' hf'
      rw [Finset.mem_insert, or_iff_not_imp_left]
      intro hne
      rw [Finset.mem_filter, hft f' hne] at hf'
      exact Finset.mem_filter.2 hf'
    have hle := h.files
    have hcard := (Finset.card_le_card hsub).trans (Finset.card_insert_le ..)
    omega
  · rcases Nat.lt_succ_iff_lt_or_eq.1 hk with hlt | rfl
    · obtain ⟨f', e', htarget, hinum'⟩ := h.opened k hlt
      have hne : f' ≠ f := by
        rintro rfl
        rw [File.target, hfree f' hf] at htarget
        cases htarget
      have hne' : e' ≠ e := by
        rintro rfl
        have := hpin (Abs.pinned_of_target htarget)
        omega
      refine ⟨f', e', by rw [hft f' hne, htarget], ?_⟩
      rw [hinum, update_of_ne hne', hinum']
    · refine ⟨f, e, by rw [hftf, File.opened_target], ?_⟩
      rw [hinum, update_self]

lemma Crowded.congr {sb : Superblock} (h : Crowded m a) (hinv : Inv sb a [] [] s) :
    Crowded m s.abs := by
  obtain ⟨hnode, hcwd, hfds, hfiles, hopened⟩ := h
  refine ⟨?_, fun p hp => ?_, fun p hp => ?_, ?_, fun k hk => ?_⟩
  · show view s.sb s.disk = _
    rw [hinv.sb_eq, hinv.view_eq, hnode]
  · show (s.proc p).cwd ≠ none
    rw [hinv.proc]
    exact hcwd p hp
  · show (Finset.univ.filter fun fd => (s.proc p).ofile fd ≠ none).card ≤ _
    rw [hinv.proc]
    exact hfds p hp
  · show (Finset.univ.filter fun f => (s.ftable f).ref ≠ 0).card ≤ _
    rw [hinv.ftable]
    exact hfiles
  · obtain ⟨f, e, htarget, hinum⟩ := hopened k hk
    refine ⟨f, e, ?_, ?_⟩
    · show (s.ftable f).target = _
      rw [hinv.ftable, htarget]
    · exact (hinv.table.pin e (Abs.pinned_of_target htarget)).trans hinum

/-- The next file is opened, unless the inode table is full. -/
lemma Crowded.step (hreach : Reachable (image crowd) s) (h : Crowded m s.abs) (hm : m < 51)
    (hp : p.val = m / NOFILE) :
    Post (· = .panic "iget: no inodes")
      (fun r => Reachable (image crowd) r.2 ∧ Crowded (m + 1) r.2.abs)
      (call p (.open (crowdArg m) O_RDONLY) s) := by
  obtain ⟨hs, hq, -, -⟩ := reachable_settled crowd_drawable.formatted hreach
  have hcwd : (s.proc p).cwd ≠ none := h.cwd p (by unfold NOFILE at hp; omega)
  have hspec : Post (· = .panic "iget: no inodes")
      (fun r => OpenPost s.sb s.abs p (argstr (crowdArg m)) O_RDONLY r.1 r.2)
      (call p (.open (crowdArg m) O_RDONLY) s) := by
    rw [call, if_pos (Option.isSome_iff_ne_none.2 hcwd)]
    exact (sysOpen_spec hs.wf h.stops hq.free hcwd (crowdArg m) O_RDONLY).run hs.inv
  rw [argstr_crowdArg m hm] at hspec
  cases hcall : call p (.open (crowdArg m) O_RDONLY) s with
  | error err => exact hspec.of_error hcall
  | ok r =>
    refine ⟨hreach.tail ⟨p, _, r.1, hcall⟩, ?_⟩
    obtain ⟨-, hrefuses, -⟩ | ⟨path, fd, a', -, hpath, hopen, hinv⟩ := hspec.of_ok hcall
    · exact absurd (hrefuses rfl _ rfl) (h.not_refuses hm hp)
    · obtain rfl := Option.some.inj hpath
      obtain ⟨hopened, hpin, -, -, -, hf, -⟩ := hopen
      obtain ⟨hi, rfl⟩ : _ ∧ _ := hopened
      rw [h.follow hm] at hi
      obtain rfl := Option.some.inj hi
      exact (h.openAt hq.free hp hf hpin).congr hinv

/-- If no call stops, all 51 files are open. -/
lemma opens_run (hreach : Reachable (image crowd) s) (h : Crowded 0 s.abs) :
    Post (· = .panic "iget: no inodes") (fun s => Crowded 51 s.abs) (calls opens s) := by
  rw [calls, opens, List.foldlM_map]
  refine (Post.foldlM_range (I := fun m s => Reachable (image crowd) s ∧ Crowded m s.abs)
    ⟨hreach, h⟩ fun m hm s h => .map (Crowded.step h.1 h.2 hm ?_)).mono fun s h => h.2
  exact Nat.mod_eq_of_lt (by unfold NOFILE Process.NPROC; omega)

/-- There are not enough entries for all files. -/
lemma opens_full (hreach : Reachable (image crowd) s) (h : Crowded 0 s.abs) :
    calls opens s = .error (.panic "iget: no inodes") := by
  have hrun := opens_run hreach h
  cases hcalls : calls opens s with
  | error err => rw [hrun.of_error hcalls]
  | ok s' =>
    -- different files have different entries
    have hopened := (hrun.of_ok hcalls).opened
    choose f e htarget hinum using hopened
    have hinj : Function.Injective fun k : Fin 51 => e k k.isLt := by
      intro j k hjk
      have hj := hinum j j.isLt
      rw [show e j j.isLt = e k k.isLt from hjk, hinum k k.isLt] at hj
      exact Fin.ext (by omega)
    have hcard := Fintype.card_le_of_injective _ hinj
    rw [Fintype.card_fin, Fintype.card_fin] at hcard
    exact absurd hcard (by decide)

end Step

/-- Four processes open 51 different files, which are more than the inode table has entries. -/
theorem inode_table_full : Formatted (image crowd) ∧
    calls (forks ++ opens) (boot (image crowd)) = .error (.panic "iget: no inodes") := by
  refine ⟨crowd_drawable.formatted, ?_⟩
  rw [forks_opens_run]
  exact opens_full (forked_reachable _) forked_crowded

end Xv6.Fs
