import Xv6.Vm.PipeRead

/-!
# Processes do not reach each other's memory

The kernel writes to user memory by `copyout`, through the page table of one process. Since every
page is in one place, all other pages stay as they are.
-/

namespace Xv6.Vm

open Xv6.Lib
open Xv6.Process (Slot)

variable {lk : Link} {s : State} {p : Slot} {va : ℕ}

/-- The page of an address that user code can access. -/
lemma Inv.leaf_page (h : Inv lk s) (hp : (s.sys.proc p).state ≠ .unused)
    (ha : (s.owners.table (some p)).Accessible va) :
    s.owners.page (.leaf (some p) (vpn va)) = (s.owners.table (some p)).addr va := by
  obtain ⟨hslots, -⟩ := h.owners
  obtain ⟨g, hshape⟩ := (hslots.live hp).shape
  have hne := ((h.userSpace hp).accessible_iff).2 ha
  have hlt := (hshape.addr_eq hne).1
  rw [Owners.page, if_pos (hlt.trans_le hshape.le), ha.addr_eq]

/-- A page of another owner is no page that process `p` can access. -/
lemma Inv.addr_ne_page (h : Inv lk s) (hp : (s.sys.proc p).state ≠ .unused)
    (ha : (s.owners.table (some p)).Accessible va) {x : Place} (hx : x ≠ .leaf (some p) (vpn va)) :
    (s.owners.table (some p)).addr va ≠ s.owners.page x := by
  obtain ⟨-, hg⟩ := h.owners
  intro heq
  rw [← h.leaf_page hp ha] at heq
  refine hx (hg.owned.inj _ _ ?_ heq).symm
  rw [h.leaf_page hp ha]
  exact ((h.userSpace hp).accessible_iff).2 ha

/-- A free page is no page that process `p` can access. -/
lemma Inv.addr_notMem_free (h : Inv lk s) (hp : (s.sys.proc p).state ≠ .unused)
    (ha : (s.owners.table (some p)).Accessible va) :
    (s.owners.table (some p)).addr va ∉ s.ram.free := by
  obtain ⟨-, hg⟩ := h.owners
  rw [← h.leaf_page hp ha]
  refine hg.owned.used_cell ?_
  rw [h.leaf_page hp ha]
  exact ((h.userSpace hp).accessible_iff).2 ha

/-- Whatever the address and the bytes, `copyout` for process `p` returns, and it writes to no page
of physical memory but those that `p` itself can access. These are none of the free pages and
none of what has another owner: page tables, trapframes, pipes, pages of the kernel, and the
memory of other processes. -/
theorem copyout_isolated (hs : Reachable lk s) (hp : (s.sys.proc p).state ≠ .unused)
    (va : BitVec 64) (src : List UInt8) :
    ∃ r ram, (copyout (s.sys.proc p).pagetable va.toNat src).run s.ram = .ok (r, ram) ∧
      ram.free = s.ram.free ∧
      (∀ pa, (∀ a, (s.owners.table (some p)).Accessible a →
        (s.owners.table (some p)).addr a ≠ pa) → ram.mem pa = s.ram.mem pa) ∧
      (∀ b ∈ s.ram.free, ram.mem b = s.ram.mem b) ∧
      (∀ x, (∀ v, x ≠ .leaf (some p) v) → ram.mem (s.owners.page x) = s.ram.mem (s.owners.page x)) ∧
      ∀ q, q ≠ p → (s.sys.proc q).state ≠ .unused → ∀ a,
        (s.owners.table (some q)).Accessible a →
        (s.owners.table (some q)).byte ram.mem a = (s.owners.table (some q)).byte s.ram.mem a := by
  have h := hs.inv
  have hu := h.userSpace hp
  obtain ⟨r, k, hreach, hrun⟩ := hu.copyout_run va.toNat src
  rw [(h.owners.1.live hp).root] at hrun
  have hframe : ∀ pa, (∀ a, (s.owners.table (some p)).Accessible a →
      (s.owners.table (some p)).addr a ≠ pa) →
      (s.owners.table (some p)).write s.ram.mem va.toNat (src.take k) pa = s.ram.mem pa :=
    fun pa hpa => Table.write_of_ne _ _ fun i hi =>
      hpa _ (hreach.before i (hi.trans_le (List.length_take_le ..)))
  refine ⟨r, _, hrun, rfl, hframe, fun b hb => hframe b fun a ha heq => ?_, fun x hx =>
    hframe _ fun a ha => h.addr_ne_page hp ha (hx _), fun q hq hlive a ha => ?_⟩
  · exact h.addr_notMem_free hp ha (heq ▸ hb)
  · unfold Table.byte
    dsimp only
    rw [hframe _ fun a' ha' => ?_]
    rw [← h.leaf_page hlive ha]
    exact h.addr_ne_page hp ha' (by simp [hq])

/-- A copy to the first process of the small machine, while its child has exited. -/
theorem copyout_isolated_small : ∃ (s : State) (r : ℤ) (ram : Ram), s.Called ∧
    (copyout (s.sys.proc initproc).pagetable 0 [1, 2]).run s.ram = .ok (r, ram) ∧
      (∀ b ∈ s.ram.free, ram.mem b = s.ram.mem b) ∧
      ∀ a, (s.owners.table (some 1)).Accessible a →
        (s.owners.table (some 1)).byte ram.mem a = (s.owners.table (some 1)).byte s.ram.mem a := by
  obtain ⟨s, h⟩ := exists_called
  obtain ⟨r, ram, hrun, -, -, hfree, -, hother⟩ :=
    copyout_isolated h.reachable (p := initproc) (by simp [h.init.1]) 0 [1, 2]
  exact ⟨s, r, ram, h, hrun, hfree, hother 1 (by decide) (by simp [h.child])⟩

end Xv6.Vm
