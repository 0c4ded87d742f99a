import Mathlib.Tactic.Abel
import Xv6.Lib.Count
import Xv6.Vm.Global

/-!
# Files and pipes

`Run lk m P G F s` is the assertion of the system calls: the process table is `P`, the pages
have the owners `G`, and every file's reference count is the number of descriptors that
refer to it, plus `F`. A pipe has its page as long as a file refers to it, and its flags
`readopen` and `writeopen` say which ends have one.
-/

namespace Xv6.Vm

open Xv6.Lib
open Xv6.Process (Slot ProcState Stop)
open Function (update update_of_ne update_self update_idem)

variable {lk : Link} {m : ℕ → Page} {G G' : Owners} {P : Slot → Proc} {ft : FileNo → File}
  {F F' : FileNo → ℤ} {e : ℕ → Bool → Bool} {α β : Type} {p : Slot} {f : FileNo} {fd : Fin NOFILE}
  {b n : ℕ} {w : Bool}

/-! ## The file table -/

/-- All descriptors of all processes. -/
def ofiles (P : Slot → Proc) : Slot × Fin NOFILE → Option FileNo := fun x => (P x.1).ofile x.2

/-- The file table agrees with the descriptors, up to `F`, and with the ends of pipes that
are open. -/
structure Files (P : Slot → Proc) (ft : FileNo → File) (F : FileNo → ℤ) (e : ℕ → Bool → Bool) :
    Prop where
  count : ∀ f, ((ft f).ref : ℤ) = refs (ofiles P) f + F f
  ends : ∀ b w, e b w = true ↔ ∃ f, (ft f).pipe = some b ∧ (ft f).writable = w
  inj : ∀ {f f' b}, (ft f).pipe = some b → (ft f').pipe = some b →
    (ft f).writable = (ft f').writable → f = f'
  idle : ∀ {f}, (ft f).ref = 0 → (ft f).pipe = none

/-- One end of the pipe in page `b` is closed. -/
def shut (e : ℕ → Bool → Bool) (b : ℕ) (w : Bool) : ℕ → Bool → Bool :=
  update e b (update (e b) w false)

lemma shut_iff (e : ℕ → Bool → Bool) (b b' : ℕ) (w w' : Bool) :
    shut e b w b' w' = true ↔ e b' w' = true ∧ ¬(b' = b ∧ w' = w) := by
  unfold shut
  by_cases hb : b' = b
  · subst hb
    by_cases hw : w' = w
    · simp [hw]
    · simp [hw]
  · simp [hb]

namespace Files

lemma setRef (h : Files P ft F e) {c : ℤ} (hn : (n : ℤ) = (ft f).ref + c)
    (hidle : n = 0 → (ft f).pipe = none) (hF : ∀ f', F' f' = F f' + c * tally (some f) f') :
    Files P (update ft f { ft f with ref := n }) F' e := by
  have hpipe : ∀ f', (update ft f { ft f with ref := n } f').pipe = (ft f').pipe := by
    intro f'
    by_cases hf : f' = f
    · subst hf
      simp
    · simp [hf]
  have hwritable : ∀ f', (update ft f { ft f with ref := n } f').writable =
      (ft f').writable := by
    intro f'
    by_cases hf : f' = f
    · subst hf
      simp
    · simp [hf]
  refine ⟨fun f' => ?_, fun b w => ?_, fun {f₁ f₂ b} h₁ h₂ hw => ?_, fun {f'} hf' => ?_⟩
  · have hcount := h.count f'
    rw [hF]
    by_cases hf : f' = f
    · subst hf
      simp only [update_self, tally_self]
      omega
    · rw [update_of_ne hf]
      simpa [tally, Ne.symm hf] using hcount
  · simp only [hpipe, hwritable]
    exact h.ends b w
  · rw [hpipe] at h₁ h₂
    rw [hwritable, hwritable] at hw
    exact h.inj h₁ h₂ hw
  · rw [hpipe]
    by_cases hf : f' = f
    · subst hf
      rw [update_self] at hf'
      exact hidle hf'
    · rw [update_of_ne hf] at hf'
      exact h.idle hf'

/-- The last reference to a file goes away. -/
lemma drop (h : Files P ft F e) (href : (ft f).ref = 1) {e' : ℕ → Bool → Bool}
    (he : ∀ b' w', e' b' w' = true ↔
      e b' w' = true ∧ ¬((ft f).pipe = some b' ∧ (ft f).writable = w')) :
    Files P (update ft f { ft f with ref := 0, pipe := none }) (F - tally (some f))
      e' := by
  refine ⟨fun f' => ?_, fun b w => ?_, fun {f₁ f₂ b} h₁ h₂ hw => ?_, fun {f'} hf' => ?_⟩
  · have hcount := h.count f'
    by_cases hf : f' = f
    · subst hf
      rw [update_self]
      simp only [Pi.sub_apply, tally_self]
      omega
    · rw [update_of_ne hf]
      simpa [tally, Ne.symm hf] using hcount
  · rw [he, h.ends]
    constructor
    · intro hb
      obtain ⟨⟨f', hpipe, hw⟩, hne⟩ := hb
      have hf : f' ≠ f := by
        rintro rfl
        exact hne ⟨hpipe, hw⟩
      exact ⟨f', by rwa [update_of_ne hf], by rwa [update_of_ne hf]⟩
    · intro hb
      obtain ⟨f', hpipe, hw⟩ := hb
      have hf : f' ≠ f := by
        rintro rfl
        simp at hpipe
      rw [update_of_ne hf] at hpipe hw
      refine ⟨⟨f', hpipe, hw⟩, fun hsame => hf ?_⟩
      exact h.inj hpipe hsame.1 (hw.trans hsame.2.symm)
  · have h₁' : f₁ ≠ f := by
      rintro rfl
      simp at h₁
    have h₂' : f₂ ≠ f := by
      rintro rfl
      simp at h₂
    rw [update_of_ne h₁'] at h₁ hw
    rw [update_of_ne h₂'] at h₂ hw
    exact h.inj h₁ h₂ hw
  · by_cases hf : f' = f
    · subst hf
      simp
    · rw [update_of_ne hf] at hf' ⊢
      exact h.idle hf'

/-- A file that is not a pipe becomes an end of the pipe in page `b`. -/
lemma connect (h : Files P ft F e) (hnone : (ft f).pipe = none) (href : (ft f).ref ≠ 0)
    (hshut : e b w = false) :
    Files P (update ft f { ft f with pipe := some b, writable := w }) F
      (update e b (update (e b) w true)) := by
  have hfresh : ∀ f', (ft f').pipe = some b → (ft f').writable ≠ w := by
    intro f' hpipe hw
    have := (h.ends b w).2 ⟨f', hpipe, hw⟩
    rw [hshut] at this
    cases this
  refine ⟨fun f' => ?_, fun b' w' => ?_, fun {f₁ f₂ b'} h₁ h₂ hw => ?_, fun {f'} hf' => ?_⟩
  · by_cases hf : f' = f
    · subst hf
      rw [update_self]
      exact h.count f'
    · rw [update_of_ne hf]
      exact h.count f'
  · constructor
    · intro hb
      by_cases hnew : b' = b ∧ w' = w
      · exact ⟨f, by simp [hnew.1], by simp [hnew.2]⟩
      · have hold : e b' w' = true := by
          by_cases hbb : b' = b
          · subst hbb
            rw [update_self, update_of_ne fun hw => hnew ⟨rfl, hw⟩] at hb
            exact hb
          · rwa [update_of_ne hbb] at hb
        obtain ⟨f', hpipe, hw⟩ := (h.ends b' w').1 hold
        have hf : f' ≠ f := by
          rintro rfl
          rw [hnone] at hpipe
          cases hpipe
        exact ⟨f', by rwa [update_of_ne hf], by rwa [update_of_ne hf]⟩
    · intro hb
      obtain ⟨f', hpipe, hw⟩ := hb
      by_cases hf : f' = f
      · subst hf
        rw [update_self] at hpipe hw
        obtain rfl : b = b' := by simpa using hpipe
        obtain rfl : w = w' := hw
        simp
      · rw [update_of_ne hf] at hpipe hw
        have hold := (h.ends b' w').2 ⟨f', hpipe, hw⟩
        by_cases hbb : b' = b
        · subst hbb
          rw [update_self]
          by_cases hww : w' = w
          · simp [hww]
          · rwa [update_of_ne hww]
        · rwa [update_of_ne hbb]
  · by_cases hf₁ : f₁ = f <;> by_cases hf₂ : f₂ = f
    · rw [hf₁, hf₂]
    · subst hf₁
      rw [update_self] at h₁ hw
      rw [update_of_ne hf₂] at h₂ hw
      obtain rfl : b = b' := by simpa using h₁
      exact absurd hw.symm (hfresh f₂ h₂)
    · subst hf₂
      rw [update_self] at h₂ hw
      rw [update_of_ne hf₁] at h₁ hw
      obtain rfl : b = b' := by simpa using h₂
      exact absurd hw (hfresh f₁ h₁)
    · rw [update_of_ne hf₁] at h₁ hw
      rw [update_of_ne hf₂] at h₂ hw
      exact h.inj h₁ h₂ hw
  · by_cases hf : f' = f
    · subst hf
      rw [update_self] at hf'
      exact absurd hf' href
    · rw [update_of_ne hf] at hf' ⊢
      exact h.idle hf'

end Files

/-- The process table with other descriptors for `p`. -/
def withOfiles (P : Slot → Proc) (p : Slot) (o : Fin NOFILE → Option FileNo) : Slot → Proc :=
  update P p { P p with ofile := o }

@[simp] lemma withOfiles_ofile (P : Slot → Proc) (p : Slot) (o : Fin NOFILE → Option FileNo) :
    (withOfiles P p o p).ofile = o := by simp [withOfiles]

@[simp] lemma withOfiles_withOfiles (P : Slot → Proc) (p : Slot)
    (o o' : Fin NOFILE → Option FileNo) :
    withOfiles (withOfiles P p o) p o' = withOfiles P p o' := by simp [withOfiles]

lemma withOfiles_self (P : Slot → Proc) (p : Slot) : withOfiles P p (P p).ofile = P := by
  simp [withOfiles]

lemma ofiles_withOfiles (P : Slot → Proc) (p : Slot) (fd : Fin NOFILE) (o : Option FileNo) :
    ofiles (withOfiles P p (update (P p).ofile fd o)) =
      update (ofiles P) (p, fd) o := by
  funext x
  obtain ⟨q, fd'⟩ := x
  by_cases hq : q = p
  · subst hq
    by_cases hfd : fd' = fd
    · subst hfd
      simp [ofiles, withOfiles]
    · simp [ofiles, withOfiles, hfd]
  · simp [ofiles, withOfiles, hq]

lemma Files.ofile (h : Files P ft F e) (p : Slot) (fd : Fin NOFILE) (o : Option FileNo) :
    Files (withOfiles P p (update (P p).ofile fd o)) ft
      (F + tally ((P p).ofile fd) - tally o) e := by
  refine ⟨fun f => ?_, h.ends, h.inj, h.idle⟩
  have hup := refs_update (ofiles P) (p, fd) o f
  rw [h.count f, ofiles_withOfiles, hup]
  simp only [Pi.add_apply, Pi.sub_apply, ofiles]
  omega

/-- Of the process table only the descriptors matter. -/
lemma Files.proc {P' : Slot → Proc} (h : Files P ft F e) (hofiles : ofiles P' = ofiles P) :
    Files P' ft F e :=
  ⟨fun f => hofiles ▸ h.count f, h.ends, h.inj, h.idle⟩

/-- Fields of a process other than the descriptors change. -/
lemma ofiles_update {pr : Proc} (h : pr.ofile = (P p).ofile) :
    ofiles (update P p pr) = ofiles P := by
  funext x
  by_cases hx : x.1 = p
  · simp [ofiles, hx, h]
  · simp [ofiles, hx]

/-! ## Assertions -/

/-- The process table is `P`, the pages belong to `G`, and the file table is balanced up
to `F`. -/
structure Run (lk : Link) (m : ℕ → Page) (P : Slot → Proc) (G : Owners) (F : FileNo → ℤ)
    (s : State) : Prop where
  proc : s.sys.proc = P
  kernel : s.sys.kernel = G.kernel
  rest : ∃ e, Files P s.sys.file F e ∧ Global lk ∅ m { G with ends := e } s.ram

section Rules

variable {E : Stop → Prop} {Q : β → State → Prop}

lemma run_proc_bind {g : Proc → M β} (hg : Triple E (Run lk m P G F) (g (P p)) Q) :
    Triple E (Run lk m P G F) (proc p >>= g) Q := by
  refine .of_run fun s hs => ?_
  have hrun := hg.run hs
  rw [← hs.proc] at hrun
  exact hrun

/-- Reading the state, when only the process table matters. -/
lemma run_sys_bind {g : State → M β}
    (hg : ∀ s, s.sys.proc = P → Triple E (Run lk m P G F) (g s) Q) :
    Triple E (Run lk m P G F) (get >>= g) Q := .read_bind fun s hs => hg s hs.proc

lemma run_focus (o : Option Slot) {x : VmM α} {R : α → Table → (ℕ → ℕ) → Prop}
    (hx : ∀ D m, D ⊆ lk.pool → (∀ o', o' ≠ o → Aside D m (G.table o')) →
      Triple E (Core D m (G.table o) G.hand) x fun r s => ∃ t h, R r t h ∧ Core D m t h s) :
    Triple E (Run lk m P G F) (vm x) fun r s =>
      ∃ t h, R r t h ∧ Run lk m P (G.set o t h) F s := by
  refine .of_run fun s hs => ?_
  obtain ⟨e, hfiles, hglobal⟩ := hs.rest
  have hfocus := focus_spec (K := ∅) (G := { G with ends := e }) (m := m) o (by simp) hx
  refine Post.bind ((hfocus.run hglobal).mono fun r hr => ?_)
  obtain ⟨t, h, hr, hg⟩ := hr
  exact ⟨t, h, hr, hs.proc, hs.kernel, e, hfiles, hg⟩

/-- Fields of `*p` other than the descriptors are assigned. -/
lemma run_modifyProc {g : Proc → Proc} (hof : (g (P p)).ofile = (P p).ofile) :
    Triple E (Run lk m P G F) (modifyProc p g) fun _ =>
      Run lk m (update P p (g (P p))) G F := by
  refine .modify fun s hs => ?_
  obtain ⟨e, hfiles, hglobal⟩ := hs.rest
  refine ⟨?_, hs.kernel, e, hfiles.proc (ofiles_update hof), hglobal⟩
  simp [Sys.setProc, hs.proc]

/-- Pages get other owners. -/
lemma Run.owners {s : State} (hs : Run lk m P G F s) (hkernel : G'.kernel = G.kernel)
    (hg : ∀ e r, Global lk ∅ m { G with ends := e } r → Global lk ∅ m { G' with ends := e } r) :
    Run lk m P G' F s := by
  obtain ⟨e, hfiles, hglobal⟩ := hs.rest
  exact ⟨hs.proc, hkernel ▸ hs.kernel, e, hfiles, hg e _ hglobal⟩

lemma setOfile_spec (fd : Fin NOFILE) (o : Option FileNo) :
    Triple E (Run lk m P G F) (setOfile p fd o) fun _ =>
      Run lk m (withOfiles P p (update (P p).ofile fd o)) G
        (F + tally ((P p).ofile fd) - tally o) := by
  refine .modify fun s hs => ?_
  obtain ⟨e, hfiles, hglobal⟩ := hs.rest
  refine ⟨?_, hs.kernel, e, hfiles.ofile p fd o, hglobal⟩
  simp [Sys.setProc, withOfiles, hs.proc]

end Rules

/-! ## Pipes -/

/-- Where the flag of an end is in `struct pipe`. -/
lemma flag_disjoint (w : Bool) :
    openField w + 4 ≤ openField (!w) ∨
      openField (!w) + 4 ≤ openField w := by
  cases w <;> decide

lemma flag_fits (w : Bool) : openField w + 4 ≤ PGSIZE := by
  cases w <;> decide

namespace Global

variable {s : Ram}

/-- One end of a pipe is closed, and the other is open. -/
lemma shutOne (hg : Global lk ∅ m G s) (hw : G.ends b w = true) (hother : G.ends b (!w) = true) :
    Global lk ∅ m { G with ends := shut G.ends b w }
      (s.setPage b ((s.mem b).st 4 (openField w) 0)) := by
  have hpipe : G.pipe b = true := by
    unfold Owners.pipe
    cases w <;> simp_all
  have hlive : ∀ c, ({ G with ends := shut G.ends b w } : Owners).pipe c = G.pipe c := by
    intro c
    by_cases hc : c = b
    · subst hc
      rw [hpipe]
      unfold Owners.pipe shut
      cases w <;> simp_all
    · simp [Owners.pipe, shut, hc]
  have hb : G.page (.pipe b) = b := if_pos hpipe
  have hne : ∀ x, x ≠ .pipe b → G.page x ≠ b := fun x hx heq =>
    hx (hg.owned.inj x (.pipe b) (heq ▸ hg.pipe_ne b hpipe) (heq.trans hb.symm))
  have hused : b ∉ s.free :=
    hb ▸ hg.owned.used_cell (x := .pipe b) (hb.symm ▸ hg.pipe_ne b hpipe)
  refine ⟨hg.nodup, hg.sub, ?_, fun o => ?_, hg.leaves, fun c hc w' => ?_, fun c hc => ?_,
    fun c hc => absurd hc (by simp), hg.linked.setPage hused _⟩
  · refine hg.owned.congr (fun _ _ => Iff.rfl) fun x => ?_
    cases x with
    | pipe c => simp only [Owners.page, hlive]
    | _ => rfl
  · exact (hg.rep o).congr fun l k _ => s.setPage_of_ne (hne (.node o l k) (by simp)) _
  · rw [hlive] at hc
    show _ ↔ shut G.ends b w c w' = true
    rw [shut_iff]
    by_cases hcb : c = b
    · subst hcb
      rw [Ram.setPage_self]
      by_cases hww : w' = w
      · subst hww
        rw [Bytes.ld_st (flag_fits w')]
        simp
      · obtain rfl : w' = !w := by cases w <;> cases w' <;> simp_all
        rw [Bytes.ld_st_of_disjoint (flag_disjoint w).symm, hg.flags c hc]
        simp
    · rw [s.setPage_of_ne hcb, hg.flags c hc]
      simp [hcb]
  · rw [hlive] at hc
    exact hg.pipe_ne c hc

/-- The last end of a pipe is closed: its page comes into hand. -/
lemma shutLast (hg : Global lk ∅ m G s) (hw : G.ends b w = true) (hother : G.ends b (!w) = false)
    (hhand : G.hand 0 = 0) (page : Page) :
    Global lk ∅ m { G with ends := shut G.ends b w, hand := update G.hand 0 b }
      (s.setPage b page) := by
  have hpipe : G.pipe b = true := by
    unfold Owners.pipe
    cases w <;> simp_all
  have hb : G.page (.pipe b) = b := if_pos hpipe
  have hb0 := hg.pipe_ne b hpipe
  have hlive : ∀ c, (shut G.ends b w c false || shut G.ends b w c true) =
      if c = b then false else G.pipe c := by
    intro c
    by_cases hc : c = b
    · subst hc
      rw [if_pos rfl]
      unfold shut
      cases w <;> simp_all
    · rw [if_neg hc]
      simp [Owners.pipe, shut, hc]
  have hmoved : Global lk ∅ m { G with ends := shut G.ends b w, hand := update G.hand 0 b }
      s := by
    refine hg.congr ?_ (fun o => .inr ⟨o, rfl⟩) fun c hc => ?_
    · have hmove := hg.owned.move (x := Place.pipe b) (y := Place.hand 0) (by simp)
        (hb.symm ▸ hb0) hhand
      rw [hb] at hmove
      refine hmove.congr (fun _ _ => Iff.rfl) fun x => ?_
      cases x with
      | hand j =>
        by_cases hj : j = 0
        · subst hj
          simp [Owners.page]
        · simp [Owners.page, hj]
      | pipe c =>
        rw [update_of_ne (by simp)]
        simp only [Owners.page, Owners.pipe, hlive]
        by_cases hc : c = b
        · subst hc
          simp
        · rw [if_neg hc, update_of_ne (by simpa using hc)]
          rfl
      | _ =>
        rw [update_of_ne (by simp), update_of_ne (by simp)]
        rfl
    · have hcb : c ≠ b := by
        rintro rfl
        simp [Owners.pipe, hlive] at hc
      constructor
      · simpa [Owners.pipe, hlive, hcb] using hc
      · simp [shut, hcb]
  have hhand' : ({ G with ends := shut G.ends b w, hand := update G.hand 0 b } :
      Owners).page (.hand 0) = b := by simp [Owners.page]
  exact hmoved.touch hhand' hb0 (by simp) (by simp) (by simp) page

/-- A page in hand is not a pipe. -/
lemma hand_not_pipe {j : ℕ} (hg : Global lk ∅ m G s) (hj : G.hand j = b) (hb : b ≠ 0) :
    G.pipe b = false := by
  rw [← Bool.not_eq_true]
  intro hpipe
  have hj' : G.page (.hand j) = b := hj
  have heq := hg.owned.inj (.hand j) (.pipe b) (hj'.symm ▸ hb) (hj'.trans (if_pos hpipe).symm)
  cases heq

/-- The page in hand becomes a pipe that is open at both ends. -/
lemma openPipe (hg : Global lk ∅ m { G with hand := update G.hand 0 b } s)
    (hhand : G.hand 0 = 0) (hb : b ≠ 0) (hflag : ∀ w, (s.mem b).ld 4 (openField w) ≠ 0) :
    Global lk ∅ m { G with ends := update G.ends b fun _ => true } s := by
  have hpage : ({ G with hand := update G.hand 0 b } : Owners).page (.hand 0) = b := by
    simp [Owners.page]
  have hnone := hg.hand_not_pipe (j := 0) (update_self 0 b G.hand) hb
  have hlive : ∀ c, ({ G with ends := update G.ends b fun _ => true } : Owners).pipe c =
      if c = b then true else G.pipe c := by
    intro c
    by_cases hc : c = b
    · subst hc
      simp [Owners.pipe]
    · simp [Owners.pipe, hc]
  refine ⟨hg.nodup, hg.sub, ?_, hg.rep, hg.leaves, fun c hc w => ?_, fun c hc => ?_, hg.frozen,
    hg.linked⟩
  · have hmove := hg.owned.move (x := Place.hand 0) (y := Place.pipe b) (by simp)
      (hpage.symm ▸ hb) (if_neg (by simpa [Owners.pipe] using hnone))
    rw [hpage] at hmove
    refine hmove.congr (fun _ _ => Iff.rfl) fun x => ?_
    cases x with
    | hand j =>
      rw [update_of_ne (by simp)]
      by_cases hj : j = 0
      · subst hj
        simpa [Owners.page] using hhand
      · simp [Owners.page, hj]
    | pipe c =>
      simp only [Owners.page, hlive]
      by_cases hc : c = b
      · subst hc
        simp
      · rw [if_neg hc, update_of_ne (by simpa using hc), update_of_ne (by simp)]
        rfl
    | _ =>
      rw [update_of_ne (by simp), update_of_ne (by simp)]
      rfl
  · rw [hlive] at hc
    by_cases hcb : c = b
    · subst hcb
      simpa using hflag w
    · rw [if_neg hcb] at hc
      simpa [hcb] using hg.flags c (by simpa [Owners.pipe] using hc) w
  · rw [hlive] at hc
    by_cases hcb : c = b
    · exact hcb ▸ hb
    · rw [if_neg hcb] at hc
      exact hg.pipe_ne c (by simpa [Owners.pipe] using hc)

end Global

/-- Reading a flag whose value is known. -/
lemma pipeOpen_bind {E : Stop → Prop} {R : Ram → Prop} {g : Bool → VmM β} {Q : β → Ram → Prop}
    {v : Bool} (hv : ∀ s, R s →
      ((s.mem b).ld 4 (openField w) ≠ 0 ↔ v = true))
    (hg : Triple E R (g v) Q) : Triple E R (pipeOpen b w >>= g) Q := by
  refine .of_run fun s hs => ?_
  have hdec : decide ((s.mem b).ld 4 (openField w) ≠ 0) = v := by
    rw [Bool.eq_iff_iff, decide_eq_true_iff]
    exact hv s hs
  show Post E _ ((g (decide ((s.mem b).ld 4 (openField w) ≠ 0))).run s)
  rw [hdec]
  exact hg.run hs

/-- `pipeclose` frees the page with the last end. -/
lemma pipeclose_spec (hw : G.ends b w = true) (hhand : G.hand 0 = 0) :
    Triple NoStop (Global lk ∅ m G) (pipeclose lk b w) fun _ =>
      Global lk ∅ m { G with ends := shut G.ends b w } := by
  cases hother : G.ends b (!w) with
  | true =>
    let G₁ : Owners := { G with ends := shut G.ends b w }
    have hpipe : G₁.pipe b = true := by
      show (shut G.ends b w b false || shut G.ends b w b true) = true
      have hopen := (shut_iff G.ends b b w (!w)).2 ⟨hother, by simp⟩
      cases w
      · rw [Bool.not_false] at hopen
        rw [hopen, Bool.or_true]
      · rw [Bool.not_true] at hopen
        rw [hopen, Bool.true_or]
    refine .bind (Q := fun _ => Global lk ∅ m G₁) (.modify fun s hg => hg.shutOne hw hother)
      fun _ => ?_
    refine pipeOpen_bind (fun s hg => hg.flags b hpipe false) ?_
    refine pipeOpen_bind (fun s hg => hg.flags b hpipe true) ?_
    refine .ite (fun hboth => ?_) fun _ => .skip
    rw [← Bool.not_or, Bool.not_eq_true'] at hboth
    exact absurd hboth (by rw [show (_ || _) = G₁.pipe b from rfl, hpipe]; simp)
  | false =>
    let G₁ : Owners := { G with ends := shut G.ends b w, hand := update G.hand 0 b }
    have hpipe : G.pipe b = true := by
      unfold Owners.pipe
      cases w <;> simp_all
    refine .of_pre fun s₀ hg₀ => ?_
    refine .bind (Q := fun _ s => Global lk ∅ m G₁ s ∧
      ∀ w', (s.mem b).ld 4 (openField w') = 0) (.modify fun s hg => ?_)
      fun _ => ?_
    · refine ⟨hg.shutLast hw hother hhand _, fun w' => ?_⟩
      rw [Ram.setPage_self]
      by_cases hww : w' = w
      · subst hww
        rw [Bytes.ld_st (flag_fits w'), Nat.zero_mod]
      · obtain rfl : w' = !w := by cases w <;> cases w' <;> simp_all
        rw [Bytes.ld_st_of_disjoint (flag_disjoint w).symm]
        by_contra hne
        have := (hg.flags b hpipe (!w)).1 hne
        rw [hother] at this
        cases this
    refine pipeOpen_bind (v := false) (fun s hg => by simp [hg.2 false]) ?_
    refine pipeOpen_bind (v := false) (fun s hg => by simp [hg.2 true]) ?_
    rw [if_pos (by rfl)]
    refine .pre (P := Global lk ∅ m G₁) ?_ fun s hg => hg.1
    refine (kfree_global (G := G₁) (by simp [G₁]) (hg₀.pipe_ne b hpipe)).post
      fun _ s hg => ?_
    simpa [G₁, hand_restore hhand] using hg

/-- `pipealloc` sets both flags in the new page, which is then a pipe. -/
lemma initPipe_spec (hhand : G.hand 0 = 0) (hb : b ≠ 0) :
    Triple NoStop (Global lk ∅ m { G with hand := update G.hand 0 b }) (initPipe b)
      fun _ => Global lk ∅ m { G with ends := update G.ends b fun _ => true } := by
  let G₁ : Owners := { G with hand := update G.hand 0 b }
  have hb₁ : G₁.page (.hand 0) = b := by simp [G₁, Owners.page]
  have htouch : ∀ s page, Global lk ∅ m G₁ s → Global lk ∅ m G₁ (s.setPage b page) :=
    fun s page hg => hg.touch hb₁ hb (by simp) (by simp) (by simp) page
  let flag : Bool → Ram → Prop := fun w s => (s.mem b).ld 4 (openField w) ≠ 0
  refine .bind (Q := fun _ s => Global lk ∅ m G₁ s ∧ flag false s) (.modify fun s hg => ?_)
    fun _ => ?_
  · refine ⟨htouch s _ hg, ?_⟩
    simp only [flag, Ram.setPage_self]
    rw [Bytes.ld_st (flag_fits false)]
    decide
  refine .bind (Q := fun _ s => Global lk ∅ m G₁ s ∧ ∀ w, flag w s) (.modify fun s hg => ?_)
    fun _ => ?_
  · refine ⟨htouch s _ hg.1, fun w => ?_⟩
    simp only [flag, Ram.setPage_self]
    cases w with
    | false =>
      rw [Bytes.ld_st_of_disjoint (.inl (by decide))]
      exact hg.2
    | true =>
      rw [Bytes.ld_st (flag_fits true)]
      decide
  -- the other fields do not overlap
  have hflag : ∀ s off, off + 4 ≤ READOPEN → ∀ w, flag w s →
      flag w (s.setPage b ((s.mem b).st 4 off 0)) := by
    intro s off hoff w hw
    simp only [flag, Ram.setPage_self]
    rw [Bytes.ld_st_of_disjoint (.inr ?_)]
    · exact hw
    · cases w
      · exact hoff
      · exact hoff.trans (by decide)
  refine .bind (Q := fun _ s => Global lk ∅ m G₁ s ∧ ∀ w, flag w s) (.modify fun s hg => ?_)
    fun _ => .modify fun s hg => ?_
  · exact ⟨htouch s _ hg.1, fun w => hflag s 540 (by decide) w (hg.2 w)⟩
  · have hg' := htouch s ((s.mem b).st 4 536 0) hg.1
    have hfl := fun w => hflag s 536 (by decide) w (hg.2 w)
    exact hg'.openPipe hhand hb hfl

/-! ## Files -/

/-- The count of references of a file. -/
lemma Run.ref_eq {s : State} (hs : Run lk m P G F s) (f : FileNo) :
    ((s.sys.file f).ref : ℤ) = refs (ofiles P) f + F f := by
  obtain ⟨e, hfiles, -⟩ := hs.rest
  exact hfiles.count f

lemma run_file_bind {E : Stop → Prop} {g : File → M β} {Q : β → State → Prop}
    (hg : ∀ x, Triple E (fun s => s.sys.file f = x ∧ Run lk m P G F s) (g x) Q) :
    Triple E (Run lk m P G F) (file f >>= g) Q :=
  .of_run fun s hs => (hg (s.sys.file f)).run ⟨rfl, hs⟩

lemma run_setRef {x : File} {g : File → File} {c : ℤ} (hg : g x = { x with ref := n })
    (hn : (n : ℤ) = x.ref + c) (hidle : n = 0 → x.pipe = none)
    (hF : ∀ f', F' f' = F f' + c * tally (some f) f') :
    Triple NoStop (fun s => s.sys.file f = x ∧ Run lk m P G F s) (modifyFile f g) fun _ =>
      Run lk m P G F' := by
  refine .modify fun s hs => ?_
  obtain ⟨rfl, hs⟩ := hs
  obtain ⟨e, hfiles, hglobal⟩ := hs.rest
  refine ⟨hs.proc, hs.kernel, e, ?_, hglobal⟩
  simp only [Sys.setFile, hg]
  exact hfiles.setRef hn hidle hF

lemma filedup_spec (hpos : 1 ≤ (refs (ofiles P) f : ℤ) + F f) :
    Triple NoStop (Run lk m P G F) (filedup f) fun _ => Run lk m P G (F + tally (some f)) := by
  refine run_file_bind fun x => .of_pre fun s₀ hs₀ => ?_
  have href := hs₀.2.ref_eq f
  rw [hs₀.1] at href
  refine .ite (fun hlt => absurd hlt (by omega)) fun _ => ?_
  exact run_setRef (n := x.ref + 1) (c := 1) rfl (by push_cast; rfl) (by omega) fun f' => by simp

/-- `fileclose` drops a reference, and closes its end of the pipe with the last one. -/
lemma fileclose_spec (hhand : G.hand 0 = 0) (hpos : 1 ≤ (refs (ofiles P) f : ℤ) + F f) :
    Triple NoStop (Run lk m P G F) (fileclose lk f) fun _ =>
      Run lk m P G (F - tally (some f)) := by
  refine run_file_bind fun x => .of_pre fun s₀ hs₀ => ?_
  have href := hs₀.2.ref_eq f
  rw [hs₀.1] at href
  refine .ite (fun hlt => absurd hlt (by omega)) fun _ => ?_
  refine .ite (fun hmany => ?_) fun hone => ?_
  · exact run_setRef (n := x.ref - 1) (c := -1) rfl (by omega) (by omega) fun f' => by
      simp [sub_eq_add_neg]
  -- the last reference
  have hx : x.ref = 1 := by omega
  let after : (ℕ → Bool → Bool) → ℕ → Bool → Bool := fun e =>
    x.pipe.elim e fun pi => shut e pi x.writable
  let φ : (ℕ → Bool → Bool) → Sys → Prop := fun e k =>
    k.proc = P ∧ k.kernel = G.kernel ∧ Files P k.file (F - tally (some f)) (after e)
  refine .bind (Q := fun _ s => ∃ e, (∀ pi, x.pipe = some pi → e pi x.writable = true) ∧
    φ e s.sys ∧ Global lk ∅ m { G with ends := e } s.ram) (.modify fun s hs => ?_) fun _ =>
      .exists_pre fun e => .assume fun hopen => ?_
  · obtain ⟨rfl, hs⟩ := hs
    obtain ⟨e, hfiles, hglobal⟩ := hs.rest
    refine ⟨e, fun pi hpi => (hfiles.ends _ _).2 ⟨f, hpi, rfl⟩, ⟨hs.proc, hs.kernel, ?_⟩, hglobal⟩
    refine hfiles.drop hx fun b' w' => ?_
    cases hpipe : (s.sys.file f).pipe with
    | none => simp [after, hpipe]
    | some pi =>
      simp only [after, hpipe, Option.elim_some]
      rw [shut_iff, Option.some_inj, eq_comm (a := b'), eq_comm (a := w')]
  · cases hpipe : x.pipe with
    | none =>
      refine .pure fun s hs => ⟨hs.1.1, hs.1.2.1, e, ?_, hs.2⟩
      have hfiles := hs.1.2.2
      simpa only [after, hpipe, Option.elim_none] using hfiles
    | some pi =>
      refine (vm_spec (pipeclose_spec (G := { G with ends := e }) (hopen pi hpipe) hhand)).post
        fun _ s hs => ⟨hs.1.1, hs.1.2.1, _, ?_, hs.2⟩
      have hfiles := hs.1.2.2
      simpa only [after, hpipe, Option.elim_some] using hfiles

/-- `filealloc` finds a file without references, or nothing. -/
lemma filealloc_spec {K : Set ℕ} {k : Sys} :
    Triple NoStop (At lk K m k G) filealloc fun r s =>
      (r = none ∧ At lk K m k G s) ∨
      ∃ f, r = some f ∧ (k.file f).ref = 0 ∧
        At lk K m (k.setFile f fun x => { x with ref := 1 }) G s := by
  refine sys_bind fun s₀ hk => ?_
  rw [hk]
  dsimp only
  cases hfind : (List.finRange NFILE).find? fun f => decide ((k.file f).ref = 0) with
  | none => exact .pure fun s hs => .inl ⟨rfl, hs⟩
  | some f =>
    have href : (k.file f).ref = 0 := by simpa using List.find?_some hfind
    exact (modifySys_spec _).bind fun _ => .pure fun s hs => .inr ⟨f, rfl, href, hs⟩

lemma At.run {k : Sys} {s : State} (hs : At lk ∅ m k { G with ends := e } s)
    (hfiles : Files k.proc k.file F e) (hkernel : k.kernel = G.kernel) :
    Run lk m k.proc G F s := by
  obtain ⟨rfl, hglobal⟩ := hs
  exact ⟨rfl, hkernel, e, hfiles, hglobal⟩

/-- The assertion with all details. -/
lemma run_of_at {E : Stop → Prop} {x : M α} {Q : α → State → Prop}
    (hx : ∀ k e, k.proc = P → k.kernel = G.kernel → Files P k.file F e →
      Triple E (At lk ∅ m k { G with ends := e }) x Q) : Triple E (Run lk m P G F) x Q := by
  refine .of_run fun s hs => ?_
  obtain ⟨e, hfiles, hglobal⟩ := hs.rest
  exact (hx s.sys e hs.proc hs.kernel hfiles).run ⟨rfl, hglobal⟩

/-- A file without references gets one. -/
lemma Files.alloc (h : Files P ft F e) (href : (ft f).ref = 0) :
    Files P (update ft f { ft f with ref := 1 }) (F + tally (some f)) e :=
  h.setRef (c := 1) (by rw [href]; rfl) (by omega) fun f' => by simp

/-- `pipealloc` makes two files for a new pipe, or leaves nothing behind. -/
lemma pipealloc_spec (hhand : G.hand 0 = 0) (hF : 0 ≤ F) :
    Triple NoStop (Run lk m P G F) (pipealloc lk) fun r s =>
      (r = none ∧ Run lk m P G F s) ∨
      ∃ f₀ f₁, r = some (f₀, f₁) ∧ Run lk m P G (F + tally (some f₀) + tally (some f₁)) s := by
  have hpos : ∀ {F' : FileNo → ℤ} f, 0 ≤ F' f → 1 ≤ (refs (ofiles P) f : ℤ) +
    (F' + tally (some f)) f := by
    intro F' f hf
    simp only [Pi.add_apply, tally_self]
    omega
  refine run_of_at fun k e hproc hkernel hfiles => ?_
  subst hproc
  refine filealloc_spec.bind fun r => .or_pre (.assume fun hr => ?_)
    (.exists_pre fun f₀ => .assume fun hr => .assume fun href₀ => ?_)
  · rw [hr]
    exact .pure fun s hs => .inl ⟨rfl, hs.run hfiles hkernel⟩
  rw [hr]
  let k₁ := k.setFile f₀ fun x => { x with ref := 1 }
  have hfiles₁ : Files k.proc k₁.file (F + tally (some f₀)) e := hfiles.alloc href₀
  refine filealloc_spec.bind fun r => .or_pre (.assume fun hr => ?_)
    (.exists_pre fun f₁ => .assume fun hr => .assume fun href₁ => ?_)
  · rw [hr]
    refine .pre (P := Run lk m k.proc G (F + tally (some f₀))) ?_
      fun s hs => hs.run hfiles₁ hkernel
    refine (fileclose_spec hhand (hpos f₀ (hF f₀))).bind fun _ => .pure fun s hs => .inl ⟨rfl, ?_⟩
    rwa [add_sub_cancel_right] at hs
  rw [hr]
  let k₂ := k₁.setFile f₁ fun x => { x with ref := 1 }
  have hfiles₂ : Files k.proc k₂.file (F + tally (some f₀) + tally (some f₁)) e :=
    hfiles₁.alloc href₁
  have hne : f₀ ≠ f₁ := by
    rintro rfl
    simp [Sys.setFile] at href₁
  -- both files are in hand; now the page of the pipe
  refine .bind (vm_spec (φ := (· = k₂)) (kalloc_global (G := { G with ends := e }) hhand))
    fun pi => ?_
  refine .ite (fun hpi => ?_) fun hpi => ?_
  · refine .pre (P := Run lk m k.proc G (F + tally (some f₀) + tally (some f₁))) ?_ fun s hs => ?_
    · have hpos₀ : 1 ≤ (refs (ofiles k.proc) f₀ : ℤ) +
          (F + tally (some f₀) + tally (some f₁)) f₀ := by
        have h₀ := hF f₀
        have h₁ := tally_nonneg (some f₁) f₀
        simp only [Pi.add_apply, tally_self, Pi.zero_apply] at h₀ h₁ ⊢
        omega
      refine (fileclose_spec hhand hpos₀).bind fun _ => ?_
      rw [add_sub_right_comm, add_sub_cancel_right]
      refine (fileclose_spec hhand (hpos f₁ (hF f₁))).bind fun _ => .pure fun s hs =>
        .inl ⟨rfl, ?_⟩
      rwa [add_sub_cancel_right] at hs
    · obtain ⟨hk, ⟨-, hg⟩ | ⟨hne, -⟩⟩ := hs
      · exact At.run (k := k₂) ⟨hk, hg⟩ hfiles₂ hkernel
      · exact absurd hpi hne
  · let G₁ : Owners := { G with ends := e, hand := update G.hand 0 pi }
    refine .pre (P := fun s => s.sys = k₂ ∧ Global lk ∅ m G₁ s.ram) ?_ fun s hs => ?_
    · refine .of_pre fun s₁ hs₁ => ?_
      -- a page in hand is the page of no pipe, so both of its ends are free
      have hnone : G₁.pipe pi = false := hs₁.2.hand_not_pipe (j := 0) (by simp [G₁]) hpi
      have hshut : ∀ w, e pi w = false := by
        intro w
        have := Bool.or_eq_false_iff.1 hnone
        cases w
        · exact this.1
        · exact this.2
      have hfile₀ : k₂.file f₀ = { k.file f₀ with ref := 1 } := by
        simp [k₂, k₁, Sys.setFile, hne]
      have hfile₁ : k₂.file f₁ = { k.file f₁ with ref := 1 } := by
        simp [k₂, k₁, Sys.setFile, hne.symm]
      have hpipe₀ := hfiles.idle href₀
      have hpipe₁ : (k.file f₁).pipe = none := by
        have := hfiles₁.idle href₁
        simpa [k₁, Sys.setFile, hne.symm] using this
      have hconn₀ := hfiles₂.connect (f := f₀) (b := pi) (w := false) (by rw [hfile₀, hpipe₀])
        (by rw [hfile₀]; simp) (hshut false)
      have hconn₁ := hconn₀.connect (f := f₁) (b := pi) (w := true)
        (by rw [update_of_ne hne.symm, hfile₁, hpipe₁])
        (by rw [update_of_ne hne.symm, hfile₁]; simp) (by simp [hshut])
      refine .bind (vm_spec (φ := (· = k₂)) (initPipe_spec (G := { G with ends := e }) hhand hpi))
        fun _ => (modifySys_spec _).bind fun _ => (modifySys_spec _).bind fun _ =>
          .pure fun s hs => .inr ⟨f₀, f₁, rfl, ?_⟩
      let k₃ := (k₂.setFile f₀ fun x => { x with pipe := some pi, writable := false }).setFile f₁
        fun x => { x with pipe := some pi, writable := true }
      refine At.run (k := k₃) (e := update e pi fun _ => true) hs ?_ hkernel
      have hends : update (update (e pi) false true) true true =
          fun _ => true := by
        funext w
        cases w <;> simp
      rw [update_self, update_idem, hends] at hconn₁
      exact hconn₁
    · obtain ⟨hk, ⟨hzero, -⟩ | ⟨-, hg⟩⟩ := hs
      · exact absurd hzero hpi
      · exact ⟨hk, hg⟩

/-- `fdalloc` hands the reference over to a descriptor. -/
lemma fdalloc_spec (f : FileNo) :
    Triple NoStop (Run lk m P G F) (fdalloc p f) fun r s =>
      (r = none ∧ Run lk m P G F s) ∨
      ∃ fd, r = some fd ∧ (P p).ofile fd = none ∧
        Run lk m (withOfiles P p (update (P p).ofile fd (some f))) G
          (F - tally (some f)) s := by
  refine run_proc_bind ?_
  cases hfind : (List.finRange NOFILE).find? fun fd => decide ((P p).ofile fd = none) with
  | none => exact .pure fun s hs => .inl ⟨rfl, hs⟩
  | some fd =>
    have hnone : (P p).ofile fd = none := by simpa using List.find?_some hfind
    refine (setOfile_spec fd (some f)).bind fun _ => .pure fun s hs => .inr ⟨fd, rfl, hnone, ?_⟩
    rwa [hnone, tally_none, add_zero] at hs

lemma sysClose_spec (hhand : G.hand 0 = 0) (fd : BitVec 32) :
    Triple NoStop (Run lk m P G 0) (sysClose lk p fd) fun _ s =>
      ∃ o, Run lk m (withOfiles P p o) G 0 s := by
  refine run_proc_bind ?_
  have hkeep : ∀ s, Run lk m P G 0 s → ∃ o, Run lk m (withOfiles P p o) G 0 s :=
    fun s hs => ⟨(P p).ofile, by rwa [withOfiles_self]⟩
  by_cases hfd : fd.toNat < NOFILE
  · rw [dif_pos hfd]
    cases hf : (P p).ofile ⟨fd.toNat, hfd⟩ with
    | none => exact .pure hkeep
    | some f =>
      refine (setOfile_spec ⟨fd.toNat, hfd⟩ none).bind fun _ => ?_
      rw [hf, tally_none, sub_zero, zero_add]
      refine (fileclose_spec hhand ?_).bind fun _ => .pure fun s hs => ?_
      · rw [tally_self]
        omega
      · rw [sub_self] at hs
        exact ⟨_, hs⟩
  · rw [dif_neg hfd]
    exact .pure hkeep

/-- Both files of a pipe are closed again. -/
lemma closeBoth_spec (hhand : G.hand 0 = 0) (rf wf : FileNo) (a : α) :
    Triple NoStop (Run lk m P G (tally (some rf) + tally (some wf))) (do
      fileclose lk rf
      fileclose lk wf
      return a) fun r s => r = a ∧ Run lk m P G 0 s := by
  refine (fileclose_spec hhand ?_).bind fun _ => ?_
  · have := tally_nonneg (some wf) rf
    simp only [Pi.add_apply, tally_self, Pi.zero_apply] at this ⊢
    omega
  · rw [add_sub_cancel_left]
    refine (fileclose_spec hhand ?_).bind fun _ => .pure fun s hs => ⟨rfl, ?_⟩
    · rw [tally_self]
      omega
    · rwa [sub_self] at hs

/-- The descriptors of a new pipe are two. -/
lemma sysPipeAlloc_spec (hhand : G.hand 0 = 0) :
    Triple NoStop (Run lk m P G 0) (sysPipeAlloc lk p) fun r s =>
      ∃ o, (∀ rf wf fd₀ fd₁, r = some ((rf, wf), (fd₀, fd₁)) →
        fd₀ ≠ fd₁ ∧ o fd₀ = some rf ∧ o fd₁ = some wf) ∧ Run lk m (withOfiles P p o) G 0 s := by
  refine (pipealloc_spec hhand le_rfl).bind fun r => .or_pre (.assume fun hr => ?_)
    (.exists_pre fun rf => .exists_pre fun wf => .assume fun hr => ?_)
  · rw [hr]
    exact .pure fun s hs => ⟨(P p).ofile, by simp, by rwa [withOfiles_self]⟩
  rw [hr, zero_add]
  dsimp only
  refine (fdalloc_spec rf).bind fun r => .or_pre (.assume fun hr => ?_)
    (.exists_pre fun fd₀ => .assume fun hr => .assume fun hfd₀ => ?_)
  · rw [hr]
    exact (closeBoth_spec hhand rf wf none).post fun _ s hs =>
      ⟨(P p).ofile, by simp [hs.1], by rw [withOfiles_self]; exact hs.2⟩
  rw [hr, add_sub_cancel_left]
  dsimp only
  let o₁ := update (P p).ofile fd₀ (some rf)
  refine (fdalloc_spec wf).bind fun r => .or_pre (.assume fun hr => ?_)
    (.exists_pre fun fd₁ => .assume fun hr => .assume fun hfd₁ => ?_)
  · rw [hr]
    refine (setOfile_spec fd₀ none).bind fun _ => ?_
    have htally : tally (some wf) + tally ((withOfiles P p o₁ p).ofile fd₀) - tally none =
        tally (some rf) + tally (some wf) := by
      simp [o₁, add_comm]
    rw [htally]
    exact (closeBoth_spec hhand rf wf none).post fun _ s hs =>
      ⟨_, by simp [hs.1], by simpa using hs.2⟩
  rw [hr, sub_self]
  refine .pure fun s hs => ⟨update o₁ fd₁ (some wf), ?_, by simpa using hs⟩
  rintro _ _ _ _ ⟨⟩
  have hne : fd₀ ≠ fd₁ := by
    rintro rfl
    simp [withOfiles] at hfd₁
  exact ⟨hne, by simp [o₁, hne], by simp⟩

lemma sysPipe_spec {tf : ℕ} {g : Option ℕ} (hhand : G.hand 0 = 0)
    (hroot : (G.table (some p)).root = (P p).pagetable)
    (hshape : Shape lk tf n g (G.table (some p))) (fdarray : ℕ) :
    Triple NoStop (Run lk m P G 0) (sysPipe lk p fdarray) fun _ s =>
      ∃ o, Run lk m (withOfiles P p o) G 0 s := by
  refine (sysPipeAlloc_spec hhand).bind fun r => .exists_pre fun o => .assume fun ho => ?_
  match r, ho with
  | none, _ => exact .pure fun s hs => ⟨o, hs⟩
  | some ((rf, wf), (fd₀, fd₁)), ho =>
    obtain ⟨hne, hfd₀, hfd₁⟩ := ho rf wf fd₀ fd₁ rfl
    refine run_proc_bind ?_
    -- the descriptors are copied to user memory
    have hpt : (withOfiles P p o p).pagetable = (G.table (some p)).root := by
      simp [withOfiles, hroot]
    rw [hpt]
    refine (run_focus (some p) (R := fun _ t h => t = G.table (some p) ∧ h = G.hand)
      fun D m hD _ => ?_).bind fun ok => ?_
    · have hout := fun a src => copyout_spec (m := m) (h := G.hand) hD hshape a src
      refine (hout _ _).bind fun r => .ite (fun _ => ?_) fun _ => (hout _ _).bind fun r => ?_
      · exact .pure fun s hc => ⟨_, _, ⟨rfl, rfl⟩, hc⟩
      · exact .pure fun s hc => ⟨_, _, ⟨rfl, rfl⟩, hc⟩
    refine .exists_pre fun t => .exists_pre fun h => .assume fun hth => ?_
    rw [hth.1, hth.2, G.set_self]
    refine .ite (fun _ => .pure fun s hs => ⟨o, hs⟩) fun _ => ?_
    refine (setOfile_spec fd₀ none).bind fun _ => (setOfile_spec fd₁ none).bind fun _ => ?_
    have htally : (0 : FileNo → ℤ) + tally ((withOfiles P p o p).ofile fd₀) - tally none +
        tally ((withOfiles (withOfiles P p o) p
          (update (withOfiles P p o p).ofile fd₀ none) p).ofile fd₁) - tally none =
        tally (some rf) + tally (some wf) := by
      simp [hne.symm, hfd₀, hfd₁]
    rw [htally]
    exact (closeBoth_spec hhand rf wf (-1)).post fun _ s hs => ⟨_, by simpa using hs.2⟩

/-- The loop of `exit` closes all descriptors. -/
lemma exitFiles_spec (hhand : G.hand 0 = 0) :
    Triple NoStop (Run lk m P G 0) ((List.finRange NOFILE).forM (exitFile lk p)) fun _ =>
      Run lk m (withOfiles P p fun _ => none) G 0 := by
  let I : List (Fin NOFILE) → State → Prop := fun done s =>
    ∃ o, (∀ fd ∈ done, o fd = none) ∧ Run lk m (withOfiles P p o) G 0 s
  refine .conseq (P := I []) (Q := fun _ => I (List.finRange NOFILE)) ?_ ?_ ?_
  · refine .forM fun done fd rest _ => .exists_pre fun o => .assume fun hdone => ?_
    refine run_proc_bind ?_
    rw [withOfiles_ofile]
    cases hf : o fd with
    | none =>
      refine .pure fun s hs => ⟨o, fun fd' hfd' => ?_, hs⟩
      obtain h | h := List.mem_append.1 hfd'
      · exact hdone fd' h
      · rw [List.mem_singleton.1 h, hf]
    | some f =>
      have hpos : 1 ≤ refs (ofiles (withOfiles P p o)) f := by
        refine refs_pos (a := (p, fd)) ?_
        simp [ofiles, hf]
      refine (fileclose_spec hhand (by simpa using hpos)).bind fun _ => ?_
      refine (setOfile_spec fd none).post fun _ s hs => ?_
      rw [withOfiles_withOfiles, withOfiles_ofile, hf, tally_none, zero_sub, neg_add_cancel,
        sub_zero] at hs
      refine ⟨_, fun fd' hfd' => ?_, hs⟩
      by_cases heq : fd' = fd
      · simp [heq]
      · rw [update_of_ne heq]
        exact hdone fd' (by simpa [heq] using hfd')
  · exact fun s hs => ⟨(P p).ofile, by simp, by rwa [withOfiles_self]⟩
  · intro _ s hs
    obtain ⟨o, hnone, hs⟩ := hs
    rwa [show o = fun _ => none from funext fun fd => hnone fd (List.mem_finRange fd)] at hs

/-- The loop of `fork` gives the child the descriptors of its parent. -/
lemma forkFiles_spec {np : Slot} (hne : p ≠ np) (hnone : ∀ fd, (P np).ofile fd = none) :
    Triple NoStop (Run lk m P G 0) ((List.finRange NOFILE).forM (forkFile p np)) fun _ s =>
      ∃ o, Run lk m (withOfiles P np o) G 0 s := by
  let I : List (Fin NOFILE) → State → Prop := fun done s =>
    ∃ o, (∀ fd, fd ∉ done → o fd = none) ∧ Run lk m (withOfiles P np o) G 0 s
  refine .conseq (P := I []) (Q := fun _ => I (List.finRange NOFILE)) ?_ ?_ ?_
  · refine .forM fun done fd rest hl => .exists_pre fun o => .assume fun hdone => ?_
    have hfd : fd ∉ done := by
      have hnodup := List.nodup_finRange NOFILE
      rw [hl, List.nodup_append] at hnodup
      exact fun hmem => hnodup.2.2 fd hmem fd List.mem_cons_self rfl
    have hold : withOfiles P np o p = P p := by simp [withOfiles, hne]
    refine run_proc_bind ?_
    rw [hold]
    cases hf : (P p).ofile fd with
    | none => exact .pure fun s hs => ⟨o, fun fd' hfd' => hdone fd' (by simp_all), hs⟩
    | some f =>
      have hpos : 1 ≤ refs (ofiles (withOfiles P np o)) f := by
        refine refs_pos (a := (p, fd)) ?_
        simp [ofiles, hold, hf]
      refine (filedup_spec (by simpa using hpos)).bind fun _ => ?_
      refine (setOfile_spec fd (some f)).post fun _ s hs => ?_
      rw [withOfiles_withOfiles, withOfiles_ofile, hdone fd hfd, tally_none, add_zero, zero_add,
        sub_self] at hs
      refine ⟨_, fun fd' hfd' => ?_, hs⟩
      have hne' : fd' ≠ fd := by
        rintro rfl
        simp at hfd'
      rw [update_of_ne hne']
      exact hdone fd' (by simp_all)
  · exact fun s hs => ⟨(P np).ofile, fun fd _ => hnone fd, by rwa [withOfiles_self]⟩
  · exact fun _ s hs => hs.elim fun o ho => ⟨o, ho.2⟩

end Xv6.Vm
