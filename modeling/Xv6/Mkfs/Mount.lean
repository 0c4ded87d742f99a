import Xv6.Fs.Dirs
import Xv6.Mkfs.Image

/-!
# The kernel reads what `mkfs` wrote

A file of the image, looked up by its name in the root directory with `dirlookup` and read with
`readi`, has the bytes of the host file.
-/

namespace Xv6.Mkfs

open Xv6.Lib
open Xv6.Disk (Block)
open Xv6.Fs
open Xv6.Process (Slot Stop)

variable {s : Mk} {files : List Input} {e : Ino} {t : State} {k : ℕ} {name : Name}

/-- Look up a name in the root directory and read from the file: its size, and what `readi`
returns and copies. -/
def lookupRead (name : Name) (off n : ℕ) : FsM (Option (ℕ × ℤ × List UInt8)) := do
  let root ← iget ROOTINO
  ilock root
  match ← dirlookup root name with
  | none => return none
  | some (ip, _) =>
    iunlockput root
    ilock ip
    let size := (← inode ip).din.size
    let (r, bs) ← onInode ip fun sb _ ip d => readi sb ip (fun _ => true) off n d
    return some (size.toNat, r, bs)

/-! ## Mounting -/

lemma Image.readsb_eq (h : Image files s) : readsb s.disk = sb :=
  readsb_stWords h.super (by decide)

lemma finRange_eq : List.finRange NINODE = 0 :: 1 :: (List.finRange NINODE).drop 2 := by decide

/-- `iunlockput` of an inode with other references. -/
lemma iunlockput_run (href : 1 < (t.itable e).ref) (hlocked : (t.itable e).locked = true) :
    (iunlockput e).run t = .ok ((), t.setInode e fun ip =>
      { ip with
        locked := false
        ref := ip.ref - 1 }) := by
  have hunlock : (iunlock e).run t = .ok ((), t.setInode e fun ip =>
      { ip with locked := false }) := by
    unfold iunlock
    rw [run_bind_of_ok (show (inode e).run t = .ok (t.itable e, t) from rfl), hlocked,
      if_neg (by simp; omega)]
    rfl
  unfold iunlockput
  rw [run_bind_of_ok hunlock]
  generalize ht' : t.setInode e (fun ip => { ip with locked := false }) = t'
  have hentry : (t'.itable e).ref = (t.itable e).ref := by
    rw [← ht', setInode_itable]
  unfold iput
  rw [run_bind_of_ok (show (inode e).run t' = .ok (t'.itable e, t') from rfl), hentry,
    if_neg (by omega), ← ht']
  exact congrArg (fun u => Except.ok ((), u)) (setInode_setInode t e _ _)

/-- `iget` of an inode that is not in the table, if the first entry is in use. -/
lemma iget_run (inum : ℕ) (href : (t.itable 0).ref ≠ 0) (hinum : (t.itable 0).inum ≠ inum)
    (hzero : ∀ e, e ≠ 0 → t.itable e = Inode.zero) :
    (iget inum).run t =
      .ok (1, t.setInode 1 fun ip => { ip with inum := inum, ref := 1, valid := false }) := by
  have hlive : (List.finRange NINODE).find? (fun e => 0 < (t.itable e).ref ∧
      (t.itable e).inum = inum) = none := by
    rw [List.find?_eq_none]
    intro e _ hp
    have hp : 0 < (t.itable e).ref ∧ (t.itable e).inum = inum := by simpa using hp
    by_cases he : e = 0
    · rw [he] at hp
      exact hinum hp.2
    · rw [hzero e he] at hp
      exact absurd hp.1 (lt_irrefl 0)
  have hfree : (List.finRange NINODE).find? (fun e => (t.itable e).ref = 0) = some 1 := by
    rw [finRange_eq, List.find?_cons_of_neg (by simpa using href),
      List.find?_cons_of_pos (by rw [hzero 1 (by decide)]; rfl)]
  unfold iget
  rw [run_bind_of_ok (show (get : FsM State).run t = .ok (t, t) from rfl), hlive, hfree]
  rfl

lemma boot_root (d : Disk) :
    (boot d).itable 0 = { Inode.zero with inum := ROOTINO, ref := 1 } := by
  unfold boot
  dsimp only
  rw [Function.update_self]

lemma boot_other (d : Disk) (he : e ≠ 0) : (boot d).itable e = Inode.zero := by
  unfold boot
  dsimp only
  rw [Function.update_of_ne he]

/-- The state in which the root directory is locked. -/
def mounted (d : Disk) : State :=
  (boot d).setInode 0 fun ip =>
    { ip with
      ref := ip.ref + 1
      locked := true
      din := dinode (readsb d) d ROOTINO
      valid := true }

/-- `iget` and `ilock` of the root directory. -/
lemma root_run {d : Disk} (htype : (dinode (readsb d) d ROOTINO).type ≠ 0) :
    (iget ROOTINO).run (boot d) =
        .ok (0, (boot d).setInode 0 fun ip => { ip with ref := ip.ref + 1 }) ∧
      (ilock 0).run ((boot d).setInode 0 fun ip => { ip with ref := ip.ref + 1 }) =
        .ok ((), mounted d) := by
  have hlive : (List.finRange NINODE).find? (fun e => 0 < ((boot d).itable e).ref ∧
      ((boot d).itable e).inum = ROOTINO) = some 0 := by
    rw [finRange_eq]
    exact List.find?_cons_of_pos (by rw [boot_root]; decide)
  refine ⟨?_, ?_⟩
  · unfold iget
    rw [run_bind_of_ok (show (get : FsM State).run (boot d) = .ok (boot d, boot d) from rfl), hlive]
    rfl
  · generalize ht : (boot d).setInode 0 (fun ip => { ip with ref := ip.ref + 1 }) = t
    have hroot : t.itable 0 = { Inode.zero with inum := ROOTINO, ref := 2 } := by
      rw [← ht, setInode_itable, boot_root]
    have hsb : t.sb = readsb d := by rw [← ht]; rfl
    have hdisk : t.disk = d := by rw [← ht]; rfl
    have hrun := ilock_run (t := t) (e := 0) (by rw [hroot]; decide) (by rw [hroot]; rfl)
      (by rw [hroot]; rfl) (by rw [hroot, hsb, hdisk]; exact htype)
    rw [hroot, hsb, hdisk, ← ht, setInode_setInode] at hrun
    rw [← ht]
    exact hrun

lemma mounted_root (d : Disk) :
    (mounted d).itable 0 = ⟨ROOTINO, 2, true, true, dinode (readsb d) d ROOTINO⟩ := by
  unfold mounted
  rw [setInode_itable, boot_root]

lemma mounted_other (d : Disk) (he : e ≠ 0) : (mounted d).itable e = Inode.zero := by
  rw [← boot_other d he]
  exact Function.update_of_ne he ..

/-! ## Looking up a name -/

/-- The condition of the loop in `dirlookup`. -/
def Named (name : Name) (de : Dirent) : Prop := de.inum ≠ 0 ∧ namecmp name de.name = true

instance (name : Name) (de : Dirent) : Decidable (Named name de) :=
  inferInstanceAs (Decidable (_ ∧ _))

lemma Image.hasEntry (h : Image files s) (hk : k < files.length + 2) :
    HasEntry (dinode sb s.disk ROOTINO) s.disk k := by
  have hholds := h.holds ROOTINO le_rfl (by unfold ROOTINO; omega)
  have hlen : (contents files ROOTINO).length = DIRENT * (files.length + 2) :=
    length_rootBytes files
  have hsize := h.rootSize
  rw [length_rootBytes] at hsize
  have hlt : DIRENT * k < (contents files ROOTINO).length := by
    rw [hlen]
    unfold DIRENT
    omega
  obtain ⟨hbn, hne⟩ := hholds.at_ne_zero hlt
  refine ⟨?_, hbn, hne⟩
  rw [hsize]
  unfold DIRENT BSIZE
  omega

/-- `dirlookup` in the root directory finds the first entry with the name. -/
lemma Image.dirlookup_run (h : Image files s) (hk : k < (rootEntries files).length)
    (hmatch : Named name (rootEntries files)[k])
    (hfirst : ∀ j (hj : j < k), ¬Named name (rootEntries files)[j]) {ip : Ino}
    (hget : (iget (rootEntries files)[k].inum.toNat).run (mounted s.disk) = .ok (ip, t)) :
    (dirlookup 0 name).run (mounted s.disk) = .ok (some (ip, DIRENT * k), t) := by
  have hk' : k < files.length + 2 := by rwa [length_rootEntries] at hk
  have hroot := mounted_root s.disk
  rw [h.readsb_eq] at hroot
  have hdisk : (mounted s.disk).disk = s.disk := rfl
  have hslots : files.length + 2 ≤ slots (dinode sb s.disk ROOTINO).size := by
    rw [slots, h.rootSize, length_rootBytes]
    unfold DIRENT BSIZE
    omega
  obtain ⟨rest, hrest⟩ := offsets_eq_append hslots
  have hfind := findDirent_run (s := mounted s.disk) (e := 0) (p := fun de =>
    decide (de.inum ≠ 0 ∧ namecmp name de.name)) "dirlookup read" (List.range (files.length + 2))
    rest fun j hj => by
      rw [hroot, hdisk]
      exact h.hasEntry (List.mem_range.1 hj)
  have hsome : (List.range (files.length + 2)).find? (fun j => decide
      ((direntAt (dinode sb s.disk ROOTINO) s.disk j).inum ≠ 0 ∧
        namecmp name (direntAt (dinode sb s.disk ROOTINO) s.disk j).name)) = some k := by
    rw [List.find?_range_eq_some]
    refine ⟨?_, List.mem_range.2 hk', fun j hj => ?_⟩
    · rw [h.direntAt_eq hk]
      exact decide_eq_true hmatch
    · rw [h.direntAt_eq (hj.trans hk)]
      exact congrArg not (decide_eq_false (hfirst j hj))
  rw [hroot, hdisk, hsome, ← hrest] at hfind
  dsimp only at hfind
  unfold dirlookup
  rw [run_bind_of_ok (show (inode 0).run (mounted s.disk) = .ok (_, _) from rfl), hroot]
  dsimp only
  rw [if_neg (by rw [h.type ROOTINO le_rfl (by unfold ROOTINO; omega)]; decide),
    run_bind_of_ok hfind]
  dsimp only
  rw [h.direntAt_eq hk, run_bind_of_ok hget]
  rfl

lemma rootEntries_file (hk : k < files.length) (hk' : k + 2 < (rootEntries files).length) :
    (rootEntries files)[k + 2] = ⟨.ofNat 16 (k + 2), strncpy (shortName files[k].arg)⟩ := by
  simp [rootEntries]

lemma named_strncpy {inum : BitVec 16} {name' : List UInt8} :
    Named name ⟨inum, strncpy name'⟩ ↔ inum ≠ 0 ∧ cstr DIRSIZ name = cstr DIRSIZ name' := by
  simp [Named, namecmp, cstr_strncpy]

/-- The entry of a file is the only one with its name. -/
lemma not_named_before (hdots : dot ∉ names files ∧ dotdot ∉ names files)
    (hnames : (names files).Nodup) (hk : k < files.length) :
    ∀ j (hj : j < (rootEntries files).length), j < k + 2 →
      ¬Named (shortName files[k].arg) (rootEntries files)[j]
  | 0, _, _, hnamed => by
    have heq : cstr DIRSIZ (shortName files[k].arg) = dot := (named_strncpy.1 hnamed).2
    exact hdots.1 (heq ▸ List.mem_map.2 ⟨files[k], List.getElem_mem hk, rfl⟩)
  | 1, _, _, hnamed => by
    have heq : cstr DIRSIZ (shortName files[k].arg) = dotdot := (named_strncpy.1 hnamed).2
    exact hdots.2 (heq ▸ List.mem_map.2 ⟨files[k], List.getElem_mem hk, rfl⟩)
  | i + 2, hj, hlt, hnamed => by
    have hi : i < files.length := by omega
    rw [rootEntries_file hi hj, named_strncpy] at hnamed
    have hlen : (names files).length = files.length := List.length_map ..
    have hi' : i < (names files).length := by omega
    have hk' : k < (names files).length := by omega
    have heq : (names files)[i] = (names files)[k] := by
      simp only [names, List.getElem_map]
      exact hnamed.2.symm
    have := (hnames.getElem_inj_iff).1 heq
    omega

/-! ## Reading the file -/

/-- The `n` bytes from `off` on, as far as there are any. `readi` gives up if the sum of the two
`uint`s wraps around. -/
def window (bs : List UInt8) (off n : ℕ) : List UInt8 :=
  if off + n < 2 ^ 32 then (bs.drop off).take n else []

lemma Holds.fileBytes_window {ip : Dinode} {d : Disk} {bs : List UInt8} (h : Holds ip d bs)
    (hsize : ip.size.toNat = bs.length) {off n : ℕ} (hoff : off < 2 ^ 32) (hn : n < 2 ^ 32) :
    fileBytes ip d off (readCount ip.size.toNat off n) = window bs off n ∧
      readCount ip.size.toNat off n = (window bs off n).length := by
  have hbytes : fileBytes ip d off (readCount ip.size.toNat off n) = window bs off n := by
    unfold window readCount
    by_cases hwrap : off + n < 2 ^ 32
    · rw [if_pos hwrap, Nat.mod_eq_of_lt hwrap, hsize]
      by_cases hout : bs.length < off
      · rw [if_pos (.inl hout), List.drop_of_length_le hout.le, List.take_nil]
        rfl
      · rw [if_neg (by omega)]
        by_cases hlong : bs.length < off + n
        · rw [if_pos hlong, h.fileBytes_eq (by omega), List.take_of_length_le
            (by rw [List.length_drop]), List.take_of_length_le (by rw [List.length_drop]; omega)]
        · rw [if_neg hlong, h.fileBytes_eq (by omega)]
    · rw [if_neg hwrap, if_pos (.inr (by omega))]
      rfl
  exact ⟨hbytes, by rw [← hbytes, length_fileBytes]⟩

/-- The file with inode number `k + 2`, once it is in entry `1` of the inode table. -/
lemma Image.read_run (h : Image files s) (hk : k < files.length) {off n : ℕ} (hoff : off < 2 ^ 32)
    (hn : n < 2 ^ 32) (hdisk : t.disk = s.disk) (hip : (t.itable 1).din = dinode sb s.disk (k + 2))
    :
    (onInode 1 fun sb _ ip d => readi sb ip (fun _ => true) off n d).run t =
      .ok ((((window files[k].bytes off n).length : ℤ), window files[k].bytes off n), t) := by
  have hbytes : contents files (k + 2) = files[k].bytes := by
    show (files[k]?.map Input.bytes).getD [] = _
    rw [List.getElem?_eq_getElem hk, Option.map_some, Option.getD_some]
  have hholds := h.holds (k + 2) (by omega) (by omega)
  have hsize := h.size k hk
  rw [hbytes] at hholds hsize
  obtain ⟨hwin, hlen⟩ := hholds.fileBytes_window hsize hoff hn
  apply onInode_run_of_same
  rw [hip, hdisk, readi_eq_of_mapped, hwin, hlen]
  intro o hge hlt
  refine hholds.at_ne_zero ?_
  have hle := readCount_le off (dinode sb s.disk (k + 2)).size.isLt hn
  omega

/-- Inode number `inum`, which is not the root directory, gets entry `1` of the inode table. -/
lemma Image.open_run (h : Image files s) (inum : ℕ) (h₁ : 2 ≤ inum) (h₂ : inum < files.length + 2) :
    ∃ t₁ t₂ t₃, (iget inum).run (mounted s.disk) = .ok (1, t₁) ∧
      (iunlockput 0).run t₁ = .ok ((), t₂) ∧ (ilock 1).run t₂ = .ok ((), t₃) ∧
      t₃.disk = s.disk ∧ (t₃.itable 1).din = dinode sb s.disk inum := by
  have hroot := mounted_root s.disk
  have hget := iget_run (t := mounted s.disk) inum (by rw [hroot]; exact two_ne_zero)
    (by rw [hroot]; unfold ROOTINO; dsimp only; omega) fun e he => mounted_other _ he
  generalize ht₁ : (mounted s.disk).setInode 1 (fun ip => { ip with
    inum := inum, ref := 1, valid := false }) = t₁ at hget
  have hroot₁ : t₁.itable 0 = (mounted s.disk).itable 0 := by
    rw [← ht₁, setInode_itable_of_ne _ (by decide)]
  rw [hroot] at hroot₁
  have hput := iunlockput_run (t := t₁) (e := 0) (by rw [hroot₁]; exact one_lt_two)
    (by rw [hroot₁])
  generalize ht₂ : t₁.setInode 0 (fun ip => { ip with locked := false, ref := ip.ref - 1 }) = t₂
    at hput
  have hfile : t₂.itable 1 = ⟨inum, 1, false, false, Dinode.zero⟩ := by
    rw [← ht₂, setInode_itable_of_ne _ (by decide), ← ht₁, setInode_itable,
      mounted_other _ (by decide)]
    rfl
  have hsb : t₂.sb = sb := by
    rw [← ht₂, ← ht₁]
    exact h.readsb_eq
  have hdisk : t₂.disk = s.disk := by
    rw [← ht₂, ← ht₁]
    rfl
  have htype : (dinode t₂.sb t₂.disk (t₂.itable 1).inum).type ≠ 0 := by
    rw [hfile, hsb, hdisk, h.type inum (by omega) h₂, types]
    split <;> decide
  have hlock := ilock_run (t := t₂) (e := 1) (by rw [hfile]) (by rw [hfile]) (by rw [hfile]) htype
  rw [hfile, hsb, hdisk] at hlock
  refine ⟨t₁, t₂, _, hget, hput, hlock, hdisk, ?_⟩
  rw [setInode_itable]

/-- Looking up the name of any of the files in the root directory of the image and reading from
it gives the bytes of the host file. -/
theorem lookup_reads_back {files : List Input} (hfit : Fits files)
    (hdots : dot ∉ names files ∧ dotdot ∉ names files) (hnames : (names files).Nodup) :
    ∃ s, main files = .ok s ∧ ∀ k (hk : k < files.length) (off n : ℕ), off < 2 ^ 32 → n < 2 ^ 32 →
      ∃ t, (lookupRead (shortName files[k].arg) off n).run (boot s.disk) =
        .ok (some (files[k].bytes.length, (window files[k].bytes off n).length,
          window files[k].bytes off n), t) := by
  obtain ⟨s, hrun, h⟩ := main_image hfit
  refine ⟨s, hrun, fun k hk off n hoff hn => ?_⟩
  have hsmall : files.length + 1 < 200 := hfit.inodes
  have hk' : k + 2 < (rootEntries files).length := by
    rw [length_rootEntries]
    omega
  -- the entry of the file
  have hentry := rootEntries_file hk hk'
  have hinum : (rootEntries files)[k + 2].inum.toNat = k + 2 := by
    rw [hentry, BitVec.toNat_ofNat, Nat.mod_eq_of_lt (by omega)]
  have hmatch : Named (shortName files[k].arg) (rootEntries files)[k + 2] := by
    rw [hentry, named_strncpy]
    refine ⟨fun h0 => ?_, rfl⟩
    rw [hentry, h0] at hinum
    exact absurd hinum (by simp)
  have hroot : (dinode (readsb s.disk) s.disk ROOTINO).type ≠ 0 := by
    rw [h.readsb_eq, h.type ROOTINO le_rfl (by unfold ROOTINO; omega)]
    decide
  obtain ⟨hget, hlock⟩ := root_run hroot
  obtain ⟨t₁, t₂, t₃, hget', hput, hlock', hdisk, hdin⟩ := h.open_run (k + 2) (by omega)
    (by omega)
  have hlookup := h.dirlookup_run hk' hmatch
    (fun j hj => not_named_before hdots hnames hk j (hj.trans hk') hj) (by rw [hinum]; exact hget')
  have hread := h.read_run hk hoff hn hdisk hdin
  have hsize : (t₃.itable 1).din.size.toNat = files[k].bytes.length := by
    rw [hdin, h.size k hk]
    show ((files[k]?.map Input.bytes).getD []).length = _
    rw [List.getElem?_eq_getElem hk, Option.map_some, Option.getD_some]
  refine ⟨t₃, ?_⟩
  unfold lookupRead
  rw [run_bind_of_ok hget, run_bind_of_ok hlock, run_bind_of_ok hlookup]
  dsimp only
  rw [run_bind_of_ok hput, run_bind_of_ok hlock',
    run_bind_of_ok (show (inode 1).run t₃ = .ok (t₃.itable 1, t₃) from rfl), run_bind_of_ok hread,
    hsize]
  rfl

/-- A file of three bytes that the host reads in two pieces. -/
theorem lookup_reads_back_one : ∃ s, main [⟨[97], some [[1, 2], [3]]⟩] = .ok s ∧
    ∃ t, (lookupRead [97] 1 5).run (boot s.disk) = .ok (some (3, 2, [2, 3]), t) := by
  have hfit : Fits [⟨[97], some [[1, 2], [3]]⟩] :=
    ⟨by decide, by decide, by decide, by decide, by decide⟩
  obtain ⟨s, hrun, h⟩ := lookup_reads_back hfit (by decide) (by decide)
  exact ⟨s, hrun, h 0 (by decide) 1 5 (by decide) (by decide)⟩

/-- A file with the name that `mkfs` gives to an entry of its own: the lookup finds the root
directory. -/
theorem lookup_finds_root : Fits [⟨[95, 46], some []⟩] ∧ (names [⟨[95, 46], some []⟩]).Nodup ∧
    ∃ s, main [⟨[95, 46], some []⟩] = .ok s ∧
      ∃ t, (lookupRead (shortName [95, 46]) 0 0).run (boot s.disk) =
        .ok (some (BSIZE, 0, []), t) := by
  have hfit : Fits [⟨[95, 46], some []⟩] :=
    ⟨by decide, by decide, by decide, by decide, by decide⟩
  obtain ⟨s, hrun, h⟩ := main_image hfit
  refine ⟨hfit, by decide, s, hrun, ?_⟩
  have hroot := mounted_root s.disk
  rw [h.readsb_eq] at hroot
  obtain ⟨hget, hlock⟩ := root_run (d := s.disk) (by
    rw [h.readsb_eq, h.type ROOTINO le_rfl (by decide)]
    decide)
  -- the root directory is found again
  have hlive : (List.finRange NINODE).find? (fun e => 0 < ((mounted s.disk).itable e).ref ∧
      ((mounted s.disk).itable e).inum = ROOTINO) = some 0 := by
    rw [finRange_eq]
    exact List.find?_cons_of_pos (by rw [hroot]; exact decide_eq_true ⟨two_pos, rfl⟩)
  have hget' : (iget ROOTINO).run (mounted s.disk) =
      .ok (0, (mounted s.disk).setInode 0 fun ip => { ip with ref := ip.ref + 1 }) := by
    unfold iget
    rw [run_bind_of_ok (show (get : FsM State).run (mounted s.disk) =
      .ok (mounted s.disk, mounted s.disk) from rfl), hlive]
    rfl
  generalize ht₁ : (mounted s.disk).setInode 0 (fun ip => { ip with ref := ip.ref + 1 }) = t₁
    at hget'
  have hroot₁ : t₁.itable 0 = ⟨ROOTINO, 3, true, true, dinode sb s.disk ROOTINO⟩ := by
    rw [← ht₁, setInode_itable, hroot]
  have hlookup := h.dirlookup_run (k := 0) (by decide)
    (show Named (shortName [95, 46]) _ by decide)
    (fun j hj => absurd hj (Nat.not_lt_zero j)) (by exact hget')
  have hput := iunlockput_run (t := t₁) (e := 0) (by rw [hroot₁]; exact Nat.one_lt_ofNat)
    (by rw [hroot₁])
  generalize ht₂ : t₁.setInode 0 (fun ip => { ip with locked := false, ref := ip.ref - 1 }) = t₂
    at hput
  have hroot₂ : t₂.itable 0 = ⟨ROOTINO, 2, false, true, dinode sb s.disk ROOTINO⟩ := by
    rw [← ht₂, setInode_itable, hroot₁]
    rfl
  have hlock' := ilock_run_eq (t := t₂) (e := 0) (by rw [hroot₂]; exact one_le_two)
    (by rw [hroot₂])
  rw [if_pos (by rw [hroot₂])] at hlock'
  generalize ht₃ : t₂.setInode 0 (fun ip => { ip with locked := true }) = t₃ at hlock'
  have hroot₃ : (t₃.itable 0).din = dinode sb s.disk ROOTINO := by
    rw [← ht₃, setInode_itable, hroot₂]
  have hread : (onInode 0 fun sb _ ip d => readi sb ip (fun _ => true) 0 0 d).run t₃ =
      .ok ((0, []), t₃) := onInode_run_of_same rfl
  have hsize : (t₃.itable 0).din.size.toNat = BSIZE := by
    rw [hroot₃, h.rootSize, length_rootBytes]
    rfl
  refine ⟨t₃, ?_⟩
  unfold lookupRead
  rw [run_bind_of_ok hget, run_bind_of_ok hlock, run_bind_of_ok hlookup]
  dsimp only
  rw [run_bind_of_ok hput, run_bind_of_ok hlock',
    run_bind_of_ok (show (inode 0).run t₃ = .ok (t₃.itable 0, t₃) from rfl), run_bind_of_ok hread,
    hsize]
  rfl

end Xv6.Mkfs
