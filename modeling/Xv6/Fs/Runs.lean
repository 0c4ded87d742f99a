import Xv6.Fs.Capacity
import Xv6.Fs.Opens

/-!
# What holds between any two calls

A system that was booted from a consistent image, after any calls of any processes: what the
files are like, what the inode table and the open files refer to, and what may stop the next
call.
-/

namespace Xv6.Fs

open Xv6.Lib
open Xv6.Process (Slot Stop)

variable {d : Disk} {s : State}

/-! ## A run of the small image -/

/-- The first process opens `/a` and removes its name. -/
def orphanCalls : List (Slot × Call) :=
  [(0, .open (userPath samplePath) O_RDWR), (0, .unlink (userPath samplePath))]

/-- The file is open and has its contents, but no name. -/
structure Orphan (s : State) : Prop where
  reachable : Reachable (image sample) s
  file : s.ftable 0 = ⟨.inode, 1, true, true, 1, 0, 0⟩
  inode : (s.itable 1).inum = 2 ∧ (s.itable 1).ref = 1 ∧ (s.itable 1).valid = true
  node : view s.sb s.disk 2 = some ⟨T_FILE, 0, 0, 0, [104, 105]⟩

lemma exists_orphan : ∃ s, Orphan s := by
  obtain ⟨s, hrun, hfile, hinode, hnode⟩ := Post.exists_ok (x := calls orphanCalls sampleBoot)
    (Q := fun s => s.ftable 0 = ⟨.inode, 1, true, true, 1, 0, 0⟩ ∧
      ((s.itable 1).inum = 2 ∧ (s.itable 1).ref = 1 ∧ (s.itable 1).valid = true) ∧
      view s.sb s.disk 2 = some ⟨T_FILE, 0, 0, 0, [104, 105]⟩) (by decide +kernel)
  exact ⟨s, calls_reachable .refl hrun, hfile, hinode, hnode⟩

/-! ## Blocks -/

/-- The free map agrees with the places that hold block numbers: a data block is marked if one
place holds it, and then no other does. The blocks in front are marked, and no place holds them. -/
structure BlockMap (sb : Superblock) (d : Disk) : Prop where
  data : ∀ b ∈ sb.dataBlocks, marked sb d b = true ↔ ∃! x, cell sb d (dinode sb d) x = b
  reserved : ∀ b < sb.dataStart, marked sb d b = true
  place : ∀ x, cell sb d (dinode sb d) x ≠ 0 → cell sb d (dinode sb d) x ∈ sb.dataBlocks

lemma Sound.blockMap {sb : Superblock} (h : Sound sb d (dinode sb d)) : BlockMap sb d where
  data _ hb := h.owned.used_iff_existsUnique hb
  reserved := h.reserved
  place := h.owned.mem

/-- In every state between two calls of a system booted from a consistent image the free map
agrees with the files, `balloc` finds a block that is in no file, and no call frees a block
twice. -/
theorem block_ownership (hd : Formatted d) (hs : Reachable d s) :
    s.sb = readsb d ∧ BlockMap s.sb s.disk ∧
    ((balloc s.sb s.disk).1 ≠ 0 →
      ∀ x, cell s.sb s.disk (dinode s.sb s.disk) x ≠ (balloc s.sb s.disk).1) ∧
    ∀ p c, call p c s ≠ .error (.panic "freeing free block") := by
  obtain ⟨hsettled, hquiet, hsb, -⟩ := reachable_settled hd hs
  have hsound := hsettled.inv.sound
  refine ⟨hsb, hsound.blockMap, fun hne x hx => ?_, fun p c herr => ?_⟩
  · rcases balloc_cases hsettled.wf hsound.reserved with hfull | halloc
    · exact hne (by rw [hfull])
    · exact hsound.owned.cell_ne halloc.mem (by simp [halloc.free]) x hx
  · have hpost := call_spec (E := fun err => err ≠ .panic "freeing free block") hsettled hquiet
      (fun _ => by simp) (fun err hrisk _ => ?_) p c
    · exact hpost.of_error herr rfl
    · rintro rfl
      simp [Risk] at hrisk

theorem block_ownership_orphan : ∃ s, Orphan s ∧ BlockMap s.sb s.disk ∧
    ∀ p c, call p c s ≠ .error (.panic "freeing free block") := by
  obtain ⟨s, h⟩ := exists_orphan
  obtain ⟨-, hmap, -, hfree⟩ := block_ownership sample_drawable.formatted h.reachable
  exact ⟨s, h, hmap, hfree⟩

/-! ## Files and references -/

/-- A process or a file refers to entry `e` of the inode table. -/
def State.Refers (s : State) (e : Ino) : Prop :=
  (∃ p, (s.proc p).cwd = some e) ∨ ∃ f, (s.ftable f).target = some e

lemma pinned_ne_zero_iff {e : Ino} : s.abs.pinned e ≠ 0 ↔ s.Refers e := by
  unfold Abs.pinned
  constructor
  · intro hne
    by_cases hcwd : refs (cwds s.proc) e = 0
    · have hpos : 0 < refs (targets s.ftable) e := Nat.pos_of_ne_zero fun h0 => hne (by
        show refs (cwds s.proc) e + refs (targets s.ftable) e = 0
        omega)
      exact .inr (exists_of_refs_pos hpos)
    · exact .inl (exists_of_refs_pos (Nat.pos_of_ne_zero hcwd))
  · rintro (⟨p, hp⟩ | ⟨f, hf⟩)
    · have hpos := refs_pos (f := cwds s.abs.proc) (a := p) hp
      omega
    · have hpos := refs_pos (f := targets s.abs.ftable) (a := f) hf
      omega

lemma Settled.alive (hs : Settled s) {e : Ino} (he : s.Refers e) :
    view s.sb s.disk (s.itable e).inum ≠ none := hs.inv.alive e (pinned_ne_zero_iff.2 he)

/-- No file has a hole or is too long, directories consist of whole entries with inode numbers in
range, and what the inode table says about an inode is what the disk says: reading a file or a
directory allocates nothing, and a crash loses no inode that was only changed in memory. -/
theorem files_whole (hd : Formatted d) (hs : Reachable d s) :
    (∀ i n, view s.sb s.disk i = some n → n.data.length ≤ MAXFILE * BSIZE ∧
      (∀ bn, bn * BSIZE < n.data.length → (dinode s.sb s.disk i).at s.disk (blockRef bn) ≠ 0) ∧
      (n.type = T_DIR → n.Proper s.sb)) ∧
    ∀ e, (s.itable e).ref ≠ 0 → (s.itable e).valid = true →
      (s.itable e).din = dinode s.sb s.disk (s.itable e).inum ∧ (s.itable e).din.type ≠ 0 := by
  obtain ⟨hsettled, -, -, -⟩ := reachable_settled hd hs
  have hinv := hsettled.inv
  refine ⟨fun i n hn => ⟨?_, fun bn hbn => ?_, hinv.dirs i n hn⟩, hinv.table.cached⟩
  · obtain ⟨hi, htype, rfl⟩ := view_eq_some.1 hn
    rw [Dinode.length_node_data]
    exact hinv.sound.size_le i hi htype
  · obtain ⟨hi, htype, rfl⟩ := view_eq_some.1 hn
    rw [Dinode.length_node_data] at hbn
    have hcell := hinv.sound.mapped i hi htype bn hbn
    rwa [cell, if_pos ⟨hi, htype⟩] at hcell

/-- The file that was removed has its block, and the inode table has its inode. -/
theorem files_whole_orphan : ∃ s, Orphan s ∧
    (dinode s.sb s.disk 2).at s.disk (blockRef 0) ≠ 0 ∧
    (∀ n, view s.sb s.disk ROOTINO = some n → n.type = T_DIR → n.Proper s.sb) ∧
    (s.itable 1).din = dinode s.sb s.disk 2 := by
  obtain ⟨s, h⟩ := exists_orphan
  obtain ⟨hfiles, hcached⟩ := files_whole sample_drawable.formatted h.reachable
  obtain ⟨hinum, href, hvalid⟩ := h.inode
  refine ⟨s, h, (hfiles 2 _ h.node).2.1 0 (by decide), fun n hn => (hfiles ROOTINO n hn).2.2, ?_⟩
  rw [(hcached 1 (by simp [href]) hvalid).1, hinum]

/-- Open files and current directories refer to allocated inodes, an inode is in at most one entry
of the inode table, an inode that lost its last link is kept only while a file or a process
refers to it, and no inode stays locked. -/
theorem no_dangling_refs (hd : Formatted d) (hs : Reachable d s) :
    (∀ e, s.Refers e → view s.sb s.disk (s.itable e).inum ≠ none) ∧
    (∀ e e', (s.itable e).ref ≠ 0 → (s.itable e').ref ≠ 0 →
      (s.itable e).inum = (s.itable e').inum → e = e') ∧
    (∀ i n, view s.sb s.disk i = some n → n.nlink = 0 →
      ∃ e, (s.itable e).inum = i ∧ s.Refers e) ∧
    ∀ e, (s.itable e).locked = false := by
  obtain ⟨hsettled, -, -, -⟩ := reachable_settled hd hs
  have hinv := hsettled.inv
  refine ⟨fun e he => hsettled.alive he, hinv.table.inj, fun i n hn h0 => ?_,
    fun e => ?_⟩
  · obtain ⟨e, href, hinum, -⟩ := hinv.table.held i n hn h0
    rw [hinv.table.ref, inHand_nil, Nat.add_zero] at href
    exact ⟨e, hinum, pinned_ne_zero_iff.1 href⟩
  · have hlocked := hinv.table.locked e
    simpa using hlocked

/-- The inode of the file that was removed is kept by the open file. -/
theorem no_dangling_refs_orphan : ∃ s, Orphan s ∧
    view s.sb s.disk (s.itable 1).inum ≠ none ∧
    (∀ e, (s.itable e).ref ≠ 0 → (s.itable e).inum = 2 → e = 1) ∧
    (∃ e, (s.itable e).inum = 2 ∧ s.Refers e) ∧ (s.itable 1).locked = false := by
  obtain ⟨s, h⟩ := exists_orphan
  obtain ⟨halive, hinj, hkept, hlocked⟩ := no_dangling_refs sample_drawable.formatted h.reachable
  obtain ⟨hinum, href, -⟩ := h.inode
  refine ⟨s, h, halive 1 (.inr ⟨0, ?_⟩), fun e he hi => ?_, hkept 2 _ h.node rfl, hlocked 1⟩
  · rw [h.file]
    rfl
  · exact hinj e 1 he (by simp [href]) (hi.trans hinum.symm)

/-! ## Contents -/

/-- Files behave as byte arrays. -/
theorem files_are_byte_arrays :
    (∀ sb d, sb.WellFormed → Sound sb d (dinode sb d) → ContentBytes sb d) ∧
    ∀ s f n, Settled s → (s.ftable f).type = .inode →
      view s.sb s.disk (s.itable (s.ftable f).ip).inum = some n → FileBytes s f n :=
  ⟨fun _ _ hsb h => h.contentBytes hsb, fun _ _ _ h htype hn => h.fileBytes htype hn⟩

/-- The two bytes of the open file are read. -/
theorem files_are_byte_arrays_orphan : ∃ s, Orphan s ∧ ContentBytes s.sb s.disk ∧
    FileBytes s 0 ⟨T_FILE, 0, 0, 0, [104, 105]⟩ ∧
    ∃ s', (fileread 0 (fun _ => true) 2 0).run s = .ok ((2, [104, 105]), s') := by
  obtain ⟨s, h⟩ := exists_orphan
  obtain ⟨hs, -⟩ := reachable_settled sample_drawable.formatted h.reachable
  have hip : (s.itable (s.ftable 0).ip).inum = 2 := by
    rw [h.file]
    exact h.inode.1
  have hbytes := files_are_byte_arrays.2 s 0 ⟨T_FILE, 0, 0, 0, [104, 105]⟩ hs
    (by rw [h.file]) (hip ▸ h.node)
  refine ⟨s, h, files_are_byte_arrays.1 _ _ hs.wf hs.inv.sound, hbytes, ?_⟩
  obtain ⟨s', hrun, -⟩ := hbytes.fileread (by rw [h.file]) (fun _ => true) 2 0
    (by rw [h.file]; decide) fun _ _ => rfl
  rw [h.file] at hrun
  exact ⟨s', hrun⟩

/-! ## Transactions -/

/-- The transactions of a `filewrite` fit into the log. -/
structure Fits (s : State) (f : FileNo) (src : ℕ → Option UInt8) (n : BitVec 32) (ext : ℤ) :
    Prop where
  /-- Every transaction that starts with an inode without holes, whatever the state. -/
  fits : ∀ r s', (filewrite f src n ext).run s = .ok (r, s') →
    Added s.hist (fun tx => HoleFree tx.ip tx.disk → tx.logged.card ≤ MAXOPBLOCKS) s'.hist
  /-- Every transaction of a write between two calls: no inode has holes then. -/
  settled : Settled s → ∀ r s', (filewrite f src n ext).run s = .ok (r, s') →
    Added s.hist (fun tx => tx.logged.card ≤ MAXOPBLOCKS) s'.hist
  /-- A write of such a transaction returns, whatever the inode, the offset and the length. -/
  chunk : ∀ inum ip src off k d, HoleFree ip d → off < 2 ^ 32 → k ≤ maxWrite →
    (∃ x, writei s.sb inum ip src off k d = .ok x) ∧
    ∃ x, writei s.sb inum ip src off k (⟨d, ∅⟩ : Recorder) = .ok x ∧
      x.2.2.logged.card ≤ MAXOPBLOCKS

/-- Each transaction of `filewrite` logs at most `MAXOPBLOCKS` different blocks. -/
theorem filewrite_fits (s : State) (hsize : s.sb.size < 2 ^ 32) (f : FileNo)
    (src : ℕ → Option UInt8) (n : BitVec 32) (ext : ℤ) : Fits s f src n ext := by
  have hchunks : ∀ {r s'}, (filewrite f src n ext).run s = .ok (r, s') →
      Added s.hist (Tx.Chunk s.sb) s'.hist := fun hrun =>
    (((filewrite_chunks f src n ext).run ⟨rfl, .refl _ _⟩).of_ok hrun).2
  refine ⟨fun r s' hrun => ?_, fun hs r s' hrun => ?_, fun inum ip src off k d hip hoff hk => ?_⟩
  · exact (hchunks hrun).mono fun tx htx => htx.fits hsize
  · have hwrite := (filewrite_any (f := f) (E := fun _ => True) hs.wf trivial src n ext s.hist).run
      ⟨hs.inv, .refl _ _⟩
    obtain ⟨-, -, -, hholes⟩ := hwrite.of_ok hrun
    exact ((hchunks hrun).and hholes).mono fun tx htx => htx.1.fits hsize htx.2
  · exact ⟨writei_returns inum ip src hoff hk d,
      (writei_logs hsize inum hip src hoff hk).exists_ok⟩

/-- A write of 4000 bytes to `/a` takes two transactions. -/
theorem filewrite_fits_sample : ∃ s s', Reachable (image sample) s ∧
    (filewrite 0 (fun _ => some 7) 4000 0).run s = .ok (4000, s') ∧
    ∃ txs, s'.hist = s.hist ++ txs ∧ txs.length = 2 ∧
      ∀ tx ∈ txs, tx.logged.card ≤ MAXOPBLOCKS := by
  obtain ⟨s, hopen, hlen, hrun⟩ := Post.exists_ok
    (x := calls [(0, .open (userPath samplePath) O_RDWR)] sampleBoot)
    (Q := fun s => s.hist.length = 0 ∧ Post (fun _ => False) (fun x => x.1 = 4000 ∧
      x.2.hist.length = 2) ((filewrite 0 (fun _ => some 7) 4000 0).run s)) (by decide +kernel)
  obtain ⟨⟨r, s'⟩, hwrite, rfl, hlen'⟩ := hrun.exists_ok
  have hs : Reachable (image sample) s := calls_reachable .refl hopen
  obtain ⟨hsettled, -⟩ := reachable_settled sample_drawable.formatted hs
  obtain ⟨txs, htxs, hfits⟩ := (filewrite_fits s (hsettled.wf.size_lt.trans (by decide)) 0
    (fun _ => some 7) 4000 0).settled hsettled _ _ hwrite
  refine ⟨s, s', hs, hwrite, txs, htxs, ?_, hfits⟩
  rw [htxs, List.length_append, hlen] at hlen'
  omega

/-! ## Stops -/

/-- What may stop a call: it needs what another one holds, the inode table is full, or it meets
an entry of a directory or a file that should not be there. -/
def Stuck (s : State) (err : Stop) : Prop :=
  err = .disabled ∨ err = .panic "iget: no inodes" ∧ NINODE ≤ inUse s + 2 ∨
    err ∈ [.panic "ilock: no type", .panic "unlink: nlink < 1", .panic "fileread",
      .panic "filewrite"]

/-- What may stop a call between two calls. -/
lemma Settled.stuck (hs : Settled s) (hq : Quiet s) {p : Slot} {c : Call} {err : Stop}
    (h : call p c s = .error err) : Stuck s err := by
  have hcount := (call_quiet hq p c).of_error h
  have hpost := call_spec (E := fun err => err = .panic "iget: no inodes" ∧ NINODE ≤ inUse s + 2 ∨
    Risk err ∧ err ≠ .panic "iget: no inodes") hs hq (fun hfull => .inl ⟨rfl, hfull⟩)
    (fun err hrisk hne => .inr ⟨hrisk, hne⟩) p c
  rcases hpost.of_error h with hfull | ⟨hrisk, hne⟩
  · exact .inr (.inl hfull)
  · unfold Tolerated at hcount
    unfold Stuck
    simp only [Risk, List.mem_cons, List.not_mem_nil, or_false] at hrisk ⊢
    tauto

/-- No panic of the file system is reachable but these. -/
theorem call_stops (hd : Formatted d) (hs : Reachable d s) (p : Slot) (c : Call) {err : Stop}
    (h : call p c s = .error err) : Stuck s err := by
  obtain ⟨hsettled, hquiet, -, -⟩ := reachable_settled hd hs
  exact hsettled.stuck hquiet h

/-- One of the calls that open 51 files finds the inode table full. -/
theorem call_stops_crowd : ∃ s p c, Reachable (image crowd) s ∧
    call p c s = .error (.panic "iget: no inodes") ∧ NINODE ≤ inUse s + 2 := by
  obtain ⟨s, hs, x, -, hstop⟩ := calls_error (forked_reachable _)
    (opens_full (forked_reachable _) forked_crowded)
  refine ⟨s, x.1, x.2, hs, hstop, ?_⟩
  obtain hdis | ⟨-, hfull⟩ | hother := call_stops crowd_drawable.formatted hs x.1 x.2 hstop
  · cases hdis
  · exact hfull
  · simp at hother

end Xv6.Fs
