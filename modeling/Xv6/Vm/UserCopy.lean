import Xv6.Vm.Shape

/-!
# Copies between the kernel and user memory

`copyout`, `copyin` and `copyinstr` of `kernel/vm.c` go through user memory page by page. Here
they are related to a view of user memory byte by byte: `t.byte mem va` is what user code
reads at `va`, and `t.write mem va src` is the memory after user code has stored the bytes
`src` one after the other from `va` on. A copy gets to its end, or to the first address that
user code cannot access.
-/

namespace Xv6.Vm

open Xv6.Lib
open Xv6.Process (Stop)

variable {t : Table} {mem mem' : ℕ → Page} {s : Ram} {va a i pa : ℕ}

/-! ## User memory -/

/-- User code can access the address: it is below `MAXVA`, and its page is mapped with `PTE_V`
and `PTE_U`. -/
def Table.Accessible (t : Table) (va : ℕ) : Prop :=
  va < MAXVA ∧ pteV (t.leaf (vpn va)) = true ∧ pteU (t.leaf (vpn va)) = true

instance (t : Table) (va : ℕ) : Decidable (t.Accessible va) :=
  inferInstanceAs (Decidable (_ ∧ _ ∧ _))

/-- The byte that user code reads at `va`. -/
def Table.byte (t : Table) (mem : ℕ → Page) (va : ℕ) : UInt8 :=
  (mem (t.addr va)).get (va % PGSIZE)

/-- The `k` bytes from `va` on. -/
def Table.read (t : Table) (mem : ℕ → Page) (va k : ℕ) : List UInt8 :=
  (List.range k).map fun i => t.byte mem (va + i)

/-- The memory after user code has stored the bytes at `va`, `va + 1`, … -/
def Table.write (t : Table) (mem : ℕ → Page) (va : ℕ) : List UInt8 → ℕ → Page
  | [] => mem
  | c :: src =>
    t.write (Function.update mem (t.addr va) ((mem (t.addr va)).put (va % PGSIZE) [c])) (va + 1) src

/-- A page table as the kernel builds them: a tree of page-table pages, spelled out in memory,
and pages of the user that are neither page-table pages nor mapped twice. -/
structure UserSpace (mem : ℕ → Page) (t : Table) : Prop where
  rep : Rep mem t
  aligned : ∀ l k, t.node l k % PGSIZE = 0
  root : t.root ≠ 0
  page : ∀ va, t.Accessible va → pte2pa (t.leaf (vpn va)) ≠ 0
  node : ∀ va, t.Accessible va → ∀ l k, t.node l k ≠ pte2pa (t.leaf (vpn va))
  inj : ∀ va va', t.Accessible va → t.Accessible va' →
    pte2pa (t.leaf (vpn va)) = pte2pa (t.leaf (vpn va')) → vpn va = vpn va'

lemma Table.Accessible.addr_eq (h : t.Accessible va) : t.addr va = pte2pa (t.leaf (vpn va)) := by
  rw [Table.addr, if_pos ⟨h.1, by rw [h.2.1, h.2.2]; rfl⟩]

lemma Table.accessible_of_addr (h : t.addr va ≠ 0) : t.Accessible va := by
  unfold Table.addr at h
  by_cases hc : va < MAXVA ∧ (pteV (t.leaf (vpn va)) && pteU (t.leaf (vpn va))) = true
  · exact ⟨hc.1, Bool.and_eq_true_iff.1 hc.2⟩
  · rw [if_neg hc] at h
    exact absurd rfl h

lemma vpn_pgrounddown (va : ℕ) : vpn (pgrounddown va) = vpn va := by
  unfold vpn pgrounddown PGSIZE
  omega

lemma Table.addr_congr (h : vpn va = vpn a) : t.addr va = t.addr a := by
  have hlt : va < MAXVA ↔ a < MAXVA := by
    unfold vpn PGSIZE at h
    unfold MAXVA
    omega
  simp only [Table.addr, h, hlt]

/-- All addresses of a page are mapped alike. -/
lemma Table.addr_pgrounddown (t : Table) (va : ℕ) : t.addr (pgrounddown va) = t.addr va :=
  Table.addr_congr (vpn_pgrounddown va)

/-- The addresses up to the end of the page. -/
lemma Table.addr_within (t : Table) (hi : i < PGSIZE - (va - pgrounddown va)) :
    t.addr (va + i) = t.addr va := by
  refine Table.addr_congr ?_
  unfold pgrounddown at hi
  unfold vpn
  unfold PGSIZE at *
  omega

/-- Behind a page that user code can access there is another address. -/
lemma Table.next_page (t : Table) (h : t.addr va ≠ 0) :
    (pgrounddown va + PGSIZE) % 2 ^ 64 = pgrounddown va + PGSIZE := by
  have hlt := (Table.accessible_of_addr h).1
  refine Nat.mod_eq_of_lt ?_
  unfold MAXVA at hlt
  unfold pgrounddown PGSIZE
  omega

namespace UserSpace

lemma accessible_iff (h : UserSpace mem t) : t.addr va ≠ 0 ↔ t.Accessible va :=
  ⟨Table.accessible_of_addr, fun ha => by rw [ha.addr_eq]; exact h.page va ha⟩

lemma congr (h : UserSpace mem t)
    (hmem : ∀ l k, t.node l k ≠ 0 → mem' (t.node l k) = mem (t.node l k)) : UserSpace mem' t :=
  ⟨h.rep.congr hmem, h.aligned, h.root, h.page, h.node, h.inj⟩

/-- Stores of user code leave the page table alone. -/
lemma update (h : UserSpace mem t) (ha : t.Accessible va) (page : Page) :
    UserSpace (Function.update mem (t.addr va) page) t :=
  h.congr fun l k _ => Function.update_of_ne (by rw [ha.addr_eq]; exact h.node va ha l k) ..

lemma write (h : UserSpace mem t) {src : List UInt8}
    (hacc : ∀ i < src.length, t.Accessible (va + i)) : UserSpace (t.write mem va src) t := by
  induction src generalizing mem va with
  | nil => exact h
  | cons c src ih =>
    refine ih (h.update (hacc 0 (Nat.succ_pos _)) _) fun i hi => ?_
    rw [Nat.add_right_comm]
    exact hacc (i + 1) (Nat.succ_lt_succ hi)

lemma walkaddr_run (h : UserSpace s.mem t) (va : ℕ) :
    (walkaddr t.root va).run s = .ok (t.addr va, s) := by
  have hspec := (walkaddr_spec (P := (· = s)) (fun _ hs => hs ▸ h.rep) h.aligned h.root va).run rfl
  have hpost : Post (fun _ => False) _ ((walkaddr t.root va).run s) := hspec
  obtain ⟨⟨r, s'⟩, hrun, rfl, rfl⟩ := hpost.exists_ok
  exact hrun

end UserSpace

/-! ## Stores to several pages -/

lemma Table.write_append (t : Table) (mem : ℕ → Page) (va : ℕ) (src src' : List UInt8) :
    t.write mem va (src ++ src') = t.write (t.write mem va src) (va + src.length) src' := by
  induction src generalizing mem va with
  | nil => rfl
  | cons c src ih =>
    rw [List.cons_append, Table.write, ih, Table.write, List.length_cons, Nat.add_right_comm,
      Nat.add_assoc]

lemma put_cons {b : Page} {off : ℕ} {c : UInt8} {src : List UInt8} :
    (b.put off [c]).put (off + 1) src = b.put off (c :: src) := by
  funext i
  simp only [Bytes.put, List.length_cons, List.length_nil]
  by_cases hi : off + 1 ≤ i.val ∧ i.val < off + 1 + src.length
  · rw [if_pos hi, if_pos (by omega), show i.val - off = i.val - (off + 1) + 1 by omega,
      List.getD_cons_succ]
  · rw [if_neg hi]
    by_cases hoff : i.val = off
    · rw [if_pos (by omega), if_pos (by omega), show i.val - off = 0 by omega]
      rfl
    · rw [if_neg (by omega), if_neg (by omega)]

lemma put_get (b : Page) (off : ℕ) : b.put off [b.get off] = b := by
  funext i
  simp only [Bytes.put, List.length_singleton]
  by_cases hi : off ≤ i.val ∧ i.val < off + 1
  · obtain rfl : off = i.val := by omega
    rw [if_pos hi, Nat.sub_self, List.getD_cons_zero, Bytes.get, dif_pos i.isLt]
  · rw [if_neg hi]

lemma put_nil (b : Page) (off : ℕ) : b.put off [] = b := by
  funext i
  simp only [Bytes.put, List.length_nil]
  rw [if_neg (by omega)]

/-- Within a page, the stores are one `memmove`. -/
lemma Table.write_page (t : Table) (mem : ℕ → Page) {src : List UInt8}
    (hfit : va % PGSIZE + src.length ≤ PGSIZE) :
    t.write mem va src =
      Function.update mem (t.addr va) ((mem (t.addr va)).put (va % PGSIZE) src) := by
  induction src generalizing mem va with
  | nil => rw [Table.write, put_nil, Function.update_eq_self]
  | cons c src ih =>
    rw [List.length_cons] at hfit
    rw [Table.write]
    by_cases hnil : src = []
    · rw [hnil]
      rfl
    have hpos : 0 < src.length := List.length_pos_iff.2 hnil
    have hmod : (va + 1) % PGSIZE = va % PGSIZE + 1 := by
      unfold PGSIZE at hfit ⊢
      omega
    have haddr : t.addr (va + 1) = t.addr va := by
      refine Table.addr_congr ?_
      unfold vpn
      unfold PGSIZE at hfit ⊢
      omega
    rw [ih _ (by omega), haddr, hmod, Function.update_self, Function.update_idem, put_cons]

/-- What a page becomes depends on that page only. -/
lemma Table.write_congr (t : Table) (src : List UInt8) (h : mem pa = mem' pa) :
    t.write mem va src pa = t.write mem' va src pa := by
  induction src generalizing mem mem' va with
  | nil => exact h
  | cons c src ih =>
    refine ih ?_
    by_cases hpa : pa = t.addr va
    · subst hpa
      rw [Function.update_self, Function.update_self, h]
    · rw [Function.update_of_ne hpa, Function.update_of_ne hpa, h]

/-- Bytes that are there already change nothing. -/
lemma Table.write_of_byte (t : Table) {src : List UInt8}
    (h : ∀ i < src.length, t.addr (va + i) = pa → t.byte mem (va + i) = src.getD i 0) :
    t.write mem va src pa = mem pa := by
  induction src generalizing mem va with
  | nil => rfl
  | cons c src ih =>
    have hsame : Function.update mem (t.addr va) ((mem (t.addr va)).put (va % PGSIZE) [c]) pa =
        mem pa := by
      by_cases hpa : pa = t.addr va
      · have hbyte := h 0 (Nat.succ_pos _) hpa.symm
        rw [Nat.add_zero, Table.byte, ← hpa, List.getD_cons_zero] at hbyte
        rw [← hpa, Function.update_self, ← hbyte, put_get]
      · exact Function.update_of_ne hpa ..
    refine (ih fun i hi hpa => ?_).trans hsame
    rw [Table.byte, hpa, hsame, ← hpa, ← Table.byte, Nat.add_right_comm]
    rw [Nat.add_right_comm] at hpa
    exact h (i + 1) (Nat.succ_lt_succ hi) hpa

/-- Pages that are not stored to stay the same. -/
lemma Table.write_of_ne (t : Table) (mem : ℕ → Page) {src : List UInt8}
    (h : ∀ i < src.length, t.addr (va + i) ≠ pa) : t.write mem va src pa = mem pa :=
  t.write_of_byte fun i hi hpa => absurd hpa (h i hi)

namespace UserSpace

/-- Another address is another byte of memory. -/
lemma byte_update (h : UserSpace mem t) (hva : t.Accessible va) (ha : t.Accessible a) (c : UInt8) :
    t.byte (Function.update mem (t.addr va) ((mem (t.addr va)).put (va % PGSIZE) [c])) a =
      if a = va then c else t.byte mem a := by
  have hlt : a % PGSIZE < PGSIZE := Nat.mod_lt _ (by decide)
  unfold Table.byte
  by_cases hpage : t.addr a = t.addr va
  · have hvpn := h.inj a va ha hva (by rw [← ha.addr_eq, ← hva.addr_eq, hpage])
    rw [hpage, Function.update_self, Bytes.get_put, List.length_singleton]
    by_cases heq : a = va
    · subst heq
      rw [if_pos rfl, if_pos (by omega), Nat.sub_self]
      rfl
    · have hoff : a % PGSIZE ≠ va % PGSIZE := by
        unfold vpn at hvpn
        unfold PGSIZE at hvpn ⊢
        omega
      rw [if_neg heq, if_neg (by omega)]
  · rw [Function.update_of_ne hpage, if_neg]
    rintro rfl
    exact hpage rfl

/-- What user code reads after its stores. -/
lemma byte_write (h : UserSpace mem t) {src : List UInt8}
    (hacc : ∀ i < src.length, t.Accessible (va + i)) (ha : t.Accessible a) :
    t.byte (t.write mem va src) a =
      if va ≤ a ∧ a < va + src.length then src.getD (a - va) 0 else t.byte mem a := by
  induction src generalizing mem va with
  | nil =>
    rw [if_neg (by simp only [List.length_nil]; omega)]
    rfl
  | cons c src ih =>
    have hva : t.Accessible va := hacc 0 (Nat.succ_pos _)
    have hrest : ∀ i < src.length, t.Accessible (va + 1 + i) := by
      intro i hi
      rw [Nat.add_right_comm]
      exact hacc (i + 1) (Nat.succ_lt_succ hi)
    rw [Table.write, ih (h.update hva _) hrest, List.length_cons, h.byte_update hva ha]
    by_cases hin : va + 1 ≤ a ∧ a < va + 1 + src.length
    · rw [if_pos hin, if_pos (by omega), show a - va = a - (va + 1) + 1 by omega,
        List.getD_cons_succ]
    · rw [if_neg hin]
      by_cases heq : a = va
      · rw [if_pos heq, if_pos (by omega), heq, Nat.sub_self]
        rfl
      · rw [if_neg heq, if_neg (by omega)]

end UserSpace

/-! ## The copies -/

/-- How far a copy of `len` bytes at `va` that returns `r` gets: to the end, or to the first
address that user code cannot access. -/
structure Reaches (t : Table) (va len : ℕ) (r : ℤ) (k : ℕ) : Prop where
  before : ∀ i < k, t.Accessible (va + i)
  result : (r = 0 ∧ k = len) ∨ (r = -1 ∧ k < len ∧ ¬t.Accessible (va + k))

namespace Reaches

variable {len k n : ℕ} {r : ℤ}

lemma le (h : Reaches t va len r k) : k ≤ len := by
  obtain ⟨-, rfl⟩ | ⟨-, hlt, -⟩ := h.result
  · exact le_rfl
  · exact hlt.le

lemma nothing (t : Table) (va : ℕ) : Reaches t va 0 0 0 := ⟨fun _ hi => by omega, .inl ⟨rfl, rfl⟩⟩

lemma stuck (h : ¬t.Accessible va) (hlen : 0 < len) : Reaches t va len (-1) 0 :=
  ⟨fun _ hi => by omega, .inr ⟨rfl, hlen, h⟩⟩

/-- The part of a page, and what the rest of the copy reaches. -/
lemma page (hva : t.addr va ≠ 0) (hn : n = min (PGSIZE - (va - pgrounddown va)) len)
    (h : Reaches t (pgrounddown va + PGSIZE) (len - n) r k) : Reaches t va len r (n + k) := by
  have hround : pgrounddown va ≤ va ∧ va < pgrounddown va + PGSIZE := by
    unfold pgrounddown PGSIZE
    omega
  -- behind a part of a page there is nothing
  have hnext : n < len → pgrounddown va + PGSIZE = va + n := by omega
  have hbefore : ∀ i < n, t.Accessible (va + i) := by
    intro i hi
    refine Table.accessible_of_addr ?_
    rwa [t.addr_within (by omega)]
  have hk := h.le
  refine ⟨fun i hi => ?_, ?_⟩
  · by_cases hin : i < n
    · exact hbefore i hin
    · have := h.before (i - n) (by omega)
      rwa [hnext (by omega), show va + n + (i - n) = va + i by omega] at this
  · obtain ⟨hr, hk⟩ | ⟨hr, hlt, hstop⟩ := h.result
    · exact .inl ⟨hr, by omega⟩
    · refine .inr ⟨hr, by omega, ?_⟩
      rwa [hnext (by omega), Nat.add_assoc] at hstop

/-- The copy returns 0 exactly if user code can access all addresses. -/
lemma eq_zero_iff (h : Reaches t va len r k) :
    r = 0 ↔ ∀ a, va ≤ a → a < va + len → t.Accessible a := by
  obtain ⟨rfl, rfl⟩ | ⟨rfl, hlt, hstop⟩ := h.result
  · refine ⟨fun _ a hge hlt => ?_, fun _ => rfl⟩
    have := h.before (a - va) (by omega)
    rwa [Nat.add_sub_of_le hge] at this
  · refine ⟨fun hr => absurd hr (by decide), fun hall => ?_⟩
    exact absurd (hall (va + k) (by omega) (by omega)) hstop

end Reaches

/-- The bytes that a copy of `src` to `va` stores: those in front of the first address that user
code cannot access. -/
def Table.reach (t : Table) : ℕ → List UInt8 → List UInt8
  | _, [] => []
  | va, c :: src => if t.Accessible va then c :: t.reach (va + 1) src else []

namespace Table

lemma lt_length_reach {src : List UInt8} :
    i < (t.reach va src).length ↔ i < src.length ∧ ∀ j ≤ i, t.Accessible (va + j) := by
  induction src generalizing va i with
  | nil => simp [reach]
  | cons c src ih =>
    rw [reach]
    by_cases hva : t.Accessible va
    · rw [if_pos hva]
      cases i with
      | zero => simp [hva]
      | succ i =>
        rw [List.length_cons, List.length_cons, Nat.succ_lt_succ_iff, Nat.succ_lt_succ_iff, ih]
        refine and_congr_right fun _ => ⟨fun h j hj => ?_, fun h j hj => ?_⟩
        · cases j with
          | zero => exact hva
          | succ j =>
            have := h j (by omega)
            rwa [Nat.add_right_comm] at this
        · rw [Nat.add_right_comm]
          exact h (j + 1) (by omega)
    · rw [if_neg hva]
      exact ⟨fun h => absurd h (Nat.not_lt_zero _), fun h => absurd (h.2 0 (Nat.zero_le _)) hva⟩

lemma getD_reach {src : List UInt8} (hi : i < (t.reach va src).length) :
    (t.reach va src).getD i 0 = src.getD i 0 := by
  induction src generalizing va i with
  | nil => rfl
  | cons c src ih =>
    rw [reach] at hi ⊢
    by_cases hva : t.Accessible va
    · rw [if_pos hva] at hi ⊢
      cases i with
      | zero => rfl
      | succ i => exact ih (Nat.lt_of_succ_lt_succ hi)
    · rw [if_neg hva] at hi
      exact absurd hi (Nat.not_lt_zero _)

/-- All bytes in front of `k` arrive, and `k` is the end or an address that user code cannot
access. -/
lemma reach_eq_take {src : List UInt8} {k : ℕ} (hacc : ∀ i < k, t.Accessible (va + i))
    (hk : k = src.length ∨ ¬t.Accessible (va + k)) : t.reach va src = src.take k := by
  induction src generalizing va k with
  | nil => rw [List.take_nil, reach]
  | cons c src ih =>
    rw [reach]
    cases k with
    | zero =>
      have hva : ¬t.Accessible va := hk.resolve_left (by simp)
      rw [if_neg hva, List.take_zero]
    | succ k =>
      have hva : t.Accessible va := hacc 0 (Nat.succ_pos _)
      rw [if_pos hva, List.take_succ_cons, ih (k := k)]
      · intro i hi
        rw [Nat.add_right_comm]
        exact hacc (i + 1) (Nat.succ_lt_succ hi)
      · rw [Nat.add_right_comm]
        exact hk.imp_left fun h => Nat.succ_injective h

/-- Behind bytes that all arrive, the copy goes on. -/
lemma reach_append {src : List UInt8} (hacc : ∀ i < src.length, t.Accessible (va + i))
    (src' : List UInt8) :
    t.reach va (src ++ src') = src ++ t.reach (va + src.length) src' := by
  induction src generalizing va with
  | nil => rfl
  | cons c src ih =>
    have hva : t.Accessible va := hacc 0 (Nat.succ_pos _)
    rw [List.cons_append, reach, if_pos hva, ih, List.length_cons, Nat.add_right_comm,
      Nat.add_assoc, List.cons_append]
    intro i hi
    rw [Nat.add_right_comm]
    exact hacc (i + 1) (Nat.succ_lt_succ hi)

end Table

lemma sub_pgrounddown (va : ℕ) : va - pgrounddown va = va % PGSIZE := by
  unfold pgrounddown PGSIZE
  omega

namespace UserSpace

lemma copyoutLoop_run (fuel : ℕ) : ∀ (s : Ram) (va : ℕ) (src : List UInt8), UserSpace s.mem t →
    src.length ≤ fuel → ∃ r k, Reaches t va src.length r k ∧
      (copyoutLoop t.root fuel va src).run s =
        .ok (r, { s with mem := t.write s.mem va (src.take k) }) := by
  induction fuel with
  | zero =>
    intro s va src h hlen
    obtain rfl : src = [] := List.length_eq_zero_iff.1 (by omega)
    exact ⟨0, 0, .nothing t va, rfl⟩
  | succ fuel ih =>
    intro s va src h hlen
    by_cases hnil : src = []
    · subst hnil
      exact ⟨0, 0, .nothing t va, rfl⟩
    have hpos : 0 < src.length := List.length_pos_iff.2 hnil
    have hwalk := h.walkaddr_run (pgrounddown va)
    rw [t.addr_pgrounddown] at hwalk
    unfold copyoutLoop
    rw [if_neg hnil, run_bind_of_ok hwalk]
    by_cases haddr : t.addr va = 0
    · rw [if_pos haddr]
      exact ⟨-1, 0, .stuck (fun ha => h.accessible_iff.2 ha haddr) hpos, rfl⟩
    rw [if_neg haddr]
    obtain ⟨n, hn⟩ : ∃ n, n = min (PGSIZE - (va - pgrounddown va)) src.length := ⟨_, rfl⟩
    have hmod : va % PGSIZE < PGSIZE := Nat.mod_lt _ (by decide)
    have hoff := sub_pgrounddown va
    have hle : pgrounddown va ≤ va := Nat.div_mul_le_self ..
    have hacc := h.accessible_iff.1 haddr
    have hwrite : t.write s.mem va (src.take n) = Function.update s.mem (t.addr va)
        ((s.mem (t.addr va)).put (va - pgrounddown va) (src.take n)) := by
      rw [hoff]
      refine t.write_page s.mem ?_
      rw [List.length_take]
      omega
    have hspace : UserSpace (t.write s.mem va (src.take n)) t := by
      rw [hwrite]
      exact h.update hacc _
    obtain ⟨r, k, hreach, hrun⟩ := ih { s with mem := t.write s.mem va (src.take n) }
      (pgrounddown va + PGSIZE) (src.drop n) hspace (by rw [List.length_drop]; omega)
    rw [List.length_drop] at hreach
    refine ⟨r, n + k, hreach.page haddr hn, ?_⟩
    have hmove : (memmove (t.addr va) (va - pgrounddown va) (src.take n)).run s =
        .ok ((), { s with mem := t.write s.mem va (src.take n) }) := by
      rw [hwrite]
      rfl
    rw [← hn, run_bind_of_ok hmove, t.next_page haddr, hrun, List.take_add, t.write_append]
    have hlt : (src.take n).length = n := by
      rw [List.length_take]
      omega
    rw [hlt]
    -- if the copy goes on, it goes on at the next page
    by_cases hend : n = src.length
    · rw [hend, List.drop_length, List.take_nil]
      rfl
    · rw [show pgrounddown va + PGSIZE = va + n by omega]

lemma copyout_run (h : UserSpace s.mem t) (va : ℕ) (src : List UInt8) :
    ∃ r k, Reaches t va src.length r k ∧ (copyout t.root va src).run s =
      .ok (r, { s with mem := t.write s.mem va (src.take k) }) :=
  copyoutLoop_run src.length s va src h le_rfl

lemma copyout_ok (h : UserSpace s.mem t) {src : List UInt8}
    (hacc : ∀ i < src.length, t.Accessible (va + i)) :
    (copyout t.root va src).run s = .ok (0, { s with mem := t.write s.mem va src }) := by
  obtain ⟨r, k, hreach, hrun⟩ := h.copyout_run va src
  obtain ⟨rfl, rfl⟩ | ⟨-, hk, hstop⟩ := hreach.result
  · rwa [List.take_length] at hrun
  · exact absurd (hacc k hk) hstop

/-- After a copy that fails, a longer one would not have copied more. -/
lemma copyout_fail (h : UserSpace s.mem t) {src : List UInt8}
    (hacc : ¬∀ i < src.length, t.Accessible (va + i)) :
    (∀ src', t.reach va (src ++ src') = t.reach va src) ∧ (copyout t.root va src).run s =
      .ok (-1, { s with mem := t.write s.mem va (t.reach va src) }) := by
  obtain ⟨r, k, hreach, hrun⟩ := h.copyout_run va src
  obtain ⟨-, rfl⟩ | ⟨rfl, hk, hstop⟩ := hreach.result
  · exact absurd hreach.before hacc
  · have heq : t.reach va src = src.take k := t.reach_eq_take hreach.before (.inr hstop)
    refine ⟨fun src' => ?_, heq ▸ hrun⟩
    rw [heq, t.reach_eq_take hreach.before (.inr hstop), List.take_append_of_le_length hk.le]

end UserSpace

/-! ## Reading user memory -/

namespace Table

@[simp] lemma length_read (t : Table) (mem : ℕ → Page) (va k : ℕ) :
    (t.read mem va k).length = k := by
  simp [Table.read]

lemma getElem?_read (t : Table) (mem : ℕ → Page) (va : ℕ) {k : ℕ} (hi : i < k) :
    (t.read mem va k)[i]? = some (t.byte mem (va + i)) := by
  simp [Table.read, hi]

lemma read_add (t : Table) (mem : ℕ → Page) (va n k : ℕ) :
    t.read mem va (n + k) = t.read mem va n ++ t.read mem (va + n) k := by
  simp only [Table.read, List.range_add, List.map_append, List.map_map, Function.comp_def,
    Nat.add_assoc]

/-- Within a page, the bytes are those of the page. -/
lemma read_page (t : Table) (mem : ℕ → Page) {n : ℕ} (hfit : va % PGSIZE + n ≤ PGSIZE) :
    t.read mem va n = (mem (t.addr va)).slice (va % PGSIZE) n := by
  refine List.map_congr_left fun i hi => ?_
  rw [List.mem_range] at hi
  have hvpn : vpn (va + i) = vpn va := by
    unfold vpn
    unfold PGSIZE at hfit ⊢
    omega
  have hmod : (va + i) % PGSIZE = va % PGSIZE + i := by
    unfold PGSIZE at hfit ⊢
    omega
  rw [Table.byte, Table.addr_congr hvpn, hmod]

/-- The bytes of the first page, and the rest. -/
lemma read_next (t : Table) (mem : ℕ → Page) {n len k : ℕ}
    (hn : n = min (PGSIZE - (va - pgrounddown va)) len) (hk : k ≤ len - n) :
    t.read mem va n ++ t.read mem (pgrounddown va + PGSIZE) k = t.read mem va (n + k) := by
  rw [t.read_add]
  by_cases hend : k = 0
  · rw [hend]
    rfl
  · have hround : pgrounddown va ≤ va ∧ va < pgrounddown va + PGSIZE := by
      unfold pgrounddown PGSIZE
      omega
    rw [show pgrounddown va + PGSIZE = va + n by omega]

end Table

/-- How `copyinstr` ends: at the first NUL, or after `max` bytes, or at the first address that
user code cannot access. -/
inductive Scans (t : Table) (mem : ℕ → Page) (va max : ℕ) : List UInt8 → ℤ → Prop
  | found (k : ℕ) (hk : k < max) (hacc : ∀ i ≤ k, t.Accessible (va + i))
      (hne : ∀ i < k, t.byte mem (va + i) ≠ 0) (hnul : t.byte mem (va + k) = 0) :
      Scans t mem va max (t.read mem va (k + 1)) 0
  | ended (k : ℕ) (hk : k ≤ max) (hacc : ∀ i < k, t.Accessible (va + i))
      (hne : ∀ i < k, t.byte mem (va + i) ≠ 0) (hstop : k = max ∨ ¬t.Accessible (va + k)) :
      Scans t mem va max (t.read mem va k) (-1)

namespace Scans

variable {max n : ℕ} {bytes : List UInt8} {r : ℤ}

/-- A page without NUL, and the rest. -/
lemma page (hva : t.addr va ≠ 0) (hn : n = min (PGSIZE - (va - pgrounddown va)) max)
    (hne : ∀ i < n, t.byte mem (va + i) ≠ 0)
    (h : Scans t mem (pgrounddown va + PGSIZE) (max - n) bytes r) :
    Scans t mem va max (t.read mem va n ++ bytes) r := by
  have hround : pgrounddown va ≤ va ∧ va < pgrounddown va + PGSIZE := by
    unfold pgrounddown PGSIZE
    omega
  have hnext : n < max → pgrounddown va + PGSIZE = va + n := by omega
  have hacc : ∀ i < n, t.Accessible (va + i) := by
    intro i hi
    refine Table.accessible_of_addr ?_
    rwa [t.addr_within (by omega)]
  cases h with
  | found k hk hacc' hne' hnul =>
    rw [hnext (by omega)] at hacc' hne' hnul
    rw [t.read_next mem hn (show k + 1 ≤ max - n from hk), ← Nat.add_assoc]
    refine .found (n + k) (by omega) (fun i hi => ?_) (fun i hi => ?_) (by rwa [← Nat.add_assoc])
    · by_cases hin : i < n
      · exact hacc i hin
      · have := hacc' (i - n) (by omega)
        rwa [show va + n + (i - n) = va + i by omega] at this
    · by_cases hin : i < n
      · exact hne i hin
      · have := hne' (i - n) (by omega)
        rwa [show va + n + (i - n) = va + i by omega] at this
  | ended k hk hacc' hne' hstop =>
    rw [t.read_next mem hn hk]
    refine .ended (n + k) (by omega) (fun i hi => ?_) (fun i hi => ?_) ?_
    · by_cases hin : i < n
      · exact hacc i hin
      · have := hacc' (i - n) (by omega)
        rwa [hnext (by omega), show va + n + (i - n) = va + i by omega] at this
    · by_cases hin : i < n
      · exact hne i hin
      · have := hne' (i - n) (by omega)
        rwa [hnext (by omega), show va + n + (i - n) = va + i by omega] at this
    · by_cases hend : n < max
      · rw [hnext hend, Nat.add_assoc] at hstop
        exact hstop.imp_left fun h => by omega
      · exact .inl (by omega)

lemma nul (hva : t.addr va ≠ 0) (hn : n = min (PGSIZE - (va - pgrounddown va)) max)
    (hnul : 0 ∈ t.read mem va n) :
    Scans t mem va max ((t.read mem va n).takeWhile (· ≠ 0) ++ [0]) 0 := by
  obtain ⟨as, bs, hsplit, hnot⟩ := List.eq_append_cons_of_mem hnul
  have hwhile : (t.read mem va n).takeWhile (· ≠ 0) = as := by
    rw [hsplit, List.takeWhile_append_of_pos, List.takeWhile_cons_of_neg (by simp),
      List.append_nil]
    intro a ha
    have hne : a ≠ 0 := fun h => hnot (h ▸ ha)
    simpa using hne
  have hlt : as.length < n := by
    have := congrArg List.length hsplit
    simp only [Table.length_read, List.length_append, List.length_cons] at this
    omega
  have hbyte : ∀ i < n, (as ++ 0 :: bs)[i]? = some (t.byte mem (va + i)) := by
    intro i hi
    rw [← hsplit, t.getElem?_read mem va hi]
  have hread : t.read mem va (as.length + 1) = as ++ [0] := by
    have htake : (t.read mem va n).take (as.length + 1) = t.read mem va (as.length + 1) := by
      obtain ⟨m, rfl⟩ := Nat.exists_eq_add_of_le (show as.length + 1 ≤ n from hlt)
      rw [t.read_add, List.take_left' (t.length_read ..)]
    rw [← htake, hsplit, List.take_length_add_append]
    rfl
  rw [hwhile, ← hread]
  refine .found as.length (by omega) (fun i hi => ?_) (fun i hi => ?_) ?_
  · refine Table.accessible_of_addr ?_
    rwa [t.addr_within (by omega)]
  · have hget := hbyte i (by omega)
    rw [List.getElem?_append_left hi] at hget
    intro h0
    rw [h0] at hget
    exact hnot (List.mem_of_getElem? hget)
  · have hget := hbyte as.length hlt
    rw [List.getElem?_append_right le_rfl, Nat.sub_self] at hget
    exact (Option.some.inj hget).symm

end Scans

namespace UserSpace

variable {len max : ℕ}

lemma copyinLoop_run (h : UserSpace s.mem t) (fuel : ℕ) : ∀ va len, len ≤ fuel →
    ∃ r k, Reaches t va len r k ∧
      (copyinLoop t.root fuel va len).run s = .ok ((t.read s.mem va k, r), s) := by
  induction fuel with
  | zero =>
    intro va len hlen
    obtain rfl : len = 0 := by omega
    exact ⟨0, 0, .nothing t va, rfl⟩
  | succ fuel ih =>
    intro va len hlen
    by_cases hzero : len = 0
    · subst hzero
      exact ⟨0, 0, .nothing t va, rfl⟩
    have hwalk := h.walkaddr_run (pgrounddown va)
    rw [t.addr_pgrounddown] at hwalk
    unfold copyinLoop
    rw [if_neg hzero, run_bind_of_ok hwalk]
    by_cases haddr : t.addr va = 0
    · rw [if_pos haddr]
      exact ⟨-1, 0, .stuck (fun ha => h.accessible_iff.2 ha haddr) (by omega), rfl⟩
    rw [if_neg haddr]
    obtain ⟨n, hn⟩ : ∃ n, n = min (PGSIZE - (va - pgrounddown va)) len := ⟨_, rfl⟩
    have hmod : va % PGSIZE < PGSIZE := Nat.mod_lt _ (by decide)
    have hoff := sub_pgrounddown va
    obtain ⟨r, k, hreach, hrun⟩ := ih (pgrounddown va + PGSIZE) (len - n) (by omega)
    refine ⟨r, n + k, hreach.page haddr hn, ?_⟩
    have hslice : (s.mem (t.addr va)).slice (va - pgrounddown va) n = t.read s.mem va n := by
      rw [t.read_page s.mem (by omega), hoff]
    show (((do
      let x ← copyinLoop t.root fuel ((pgrounddown va + PGSIZE) % 2 ^ 64)
        (len - min (PGSIZE - (va - pgrounddown va)) len)
      return ((s.mem (t.addr va)).slice (va - pgrounddown va)
        (min (PGSIZE - (va - pgrounddown va)) len) ++ x.1, x.2)) : VmM _).run s) = _
    rw [← hn, t.next_page haddr, run_bind_of_ok hrun, hslice]
    dsimp only
    rw [t.read_next s.mem hn hreach.le]
    rfl

/-- `copyin`. -/
lemma copyin_run (h : UserSpace s.mem t) (va len : ℕ) : ∃ r k, Reaches t va len r k ∧
    (copyin t.root va len).run s = .ok ((t.read s.mem va k, r), s) :=
  h.copyinLoop_run len va len le_rfl

lemma copyinstrLoop_run (h : UserSpace s.mem t) (fuel : ℕ) : ∀ va max, max ≤ fuel →
    ∃ bytes r, Scans t s.mem va max bytes r ∧
      (copyinstrLoop t.root fuel va max).run s = .ok ((bytes, r), s) := by
  induction fuel with
  | zero =>
    intro va max hmax
    obtain rfl : max = 0 := by omega
    exact ⟨_, _, .ended 0 le_rfl (fun _ hi => by omega) (fun _ hi => by omega) (.inl rfl), rfl⟩
  | succ fuel ih =>
    intro va max hmax
    by_cases hzero : max = 0
    · subst hzero
      exact ⟨_, _, .ended 0 le_rfl (fun _ hi => by omega) (fun _ hi => by omega) (.inl rfl), rfl⟩
    have hwalk := h.walkaddr_run (pgrounddown va)
    rw [t.addr_pgrounddown] at hwalk
    unfold copyinstrLoop
    rw [if_neg hzero, run_bind_of_ok hwalk]
    by_cases haddr : t.addr va = 0
    · rw [if_pos haddr]
      exact ⟨_, _, .ended 0 (by omega) (fun _ hi => by omega) (fun _ hi => by omega)
        (.inr fun ha => h.accessible_iff.2 ha haddr), rfl⟩
    rw [if_neg haddr]
    obtain ⟨n, hn⟩ : ∃ n, n = min (PGSIZE - (va - pgrounddown va)) max := ⟨_, rfl⟩
    have hmod : va % PGSIZE < PGSIZE := Nat.mod_lt _ (by decide)
    have hoff := sub_pgrounddown va
    have hslice : (s.mem (t.addr va)).slice (va - pgrounddown va) n = t.read s.mem va n := by
      rw [t.read_page s.mem (by omega), hoff]
    show ∃ bytes r, _ ∧ ((if 0 ∈ (s.mem (t.addr va)).slice (va - pgrounddown va)
        (min (PGSIZE - (va - pgrounddown va)) max)
      then (return (((s.mem (t.addr va)).slice (va - pgrounddown va)
        (min (PGSIZE - (va - pgrounddown va)) max)).takeWhile (· ≠ 0) ++ [0], 0))
      else (do
        let x ← copyinstrLoop t.root fuel ((pgrounddown va + PGSIZE) % 2 ^ 64)
          (max - min (PGSIZE - (va - pgrounddown va)) max)
        return ((s.mem (t.addr va)).slice (va - pgrounddown va)
          (min (PGSIZE - (va - pgrounddown va)) max) ++ x.1, x.2)) : VmM _).run s) = _
    rw [← hn, hslice, t.next_page haddr]
    by_cases hnul : 0 ∈ t.read s.mem va n
    · rw [if_pos hnul]
      exact ⟨_, _, .nul haddr hn hnul, rfl⟩
    · rw [if_neg hnul]
      -- no NUL in this page: the scan goes on in the next one
      obtain ⟨bytes, r, hscan, hrun⟩ := ih (pgrounddown va + PGSIZE) (max - n) (by omega)
      refine ⟨_, _, hscan.page haddr hn fun i hi h0 => hnul ?_, ?_⟩
      · have hget := t.getElem?_read s.mem va hi
        rw [h0] at hget
        exact List.mem_of_getElem? hget
      · rw [run_bind_of_ok hrun]
        rfl

/-- `copyinstr`. -/
lemma copyinstr_run (h : UserSpace s.mem t) (va max : ℕ) :
    ∃ bytes r, Scans t s.mem va max bytes r ∧
      (copyinstr t.root va max).run s = .ok ((bytes, r), s) :=
  h.copyinstrLoop_run max va max le_rfl

end UserSpace

/-- The tables of processes. -/
lemma Core.userSpace {lk : Link} {D : Set ℕ} {m : ℕ → Page} {h : ℕ → ℕ} {tf n : ℕ} {g : Option ℕ}
    (hc : Core D m t h s) (hD : D ⊆ lk.pool) (hs : Shape lk tf n g t) : UserSpace s.mem t := by
  have hlt : ∀ va, t.Accessible va → vpn va < n ∧ t.leaf (vpn va) ≠ 0 := by
    intro va ha
    have hleaf : t.leaf (vpn va) ≠ 0 := by
      intro h0
      rw [Table.Accessible, h0] at ha
      exact absurd ha.2.1 (by decide)
    have hne : t.addr va ≠ 0 := by
      rw [ha.addr_eq]
      exact (hc.leaves _ hleaf).page
    exact ⟨(hs.addr_eq hne).1, hleaf⟩
  refine ⟨hc.rep, hc.aligned hD, hs.root, fun va ha => (hc.leaves _ (hlt va ha).2).page,
    fun va ha l k => ?_, fun va va' ha ha' heq => ?_⟩
  · obtain ⟨hv, hl⟩ := hlt va ha
    exact hc.leaf_ne_node (hv.trans_le hs.le) hl l k
  · obtain ⟨hv, hl⟩ := hlt va ha
    obtain ⟨hv', -⟩ := hlt va' ha'
    have hcell := hc.leaf_cell_ne (hv.trans_le hs.le) hl
    rw [← Core.leaf_cell (h := h) (hv.trans_le hs.le),
      ← Core.leaf_cell (h := h) (hv'.trans_le hs.le)] at heq
    simpa using hc.owned.inj _ _ hcell heq

/-- The bytes `src` were stored at `va`, `va + 1`, …, and nothing else was written. -/
structure Stored (t : Table) (mem : ℕ → Page) (va : ℕ) (src : List UInt8) (mem' : ℕ → Page) :
    Prop where
  byte : ∀ a, t.Accessible a → t.byte mem' a =
    if va ≤ a ∧ a < va + src.length then src.getD (a - va) 0 else t.byte mem a
  frame : ∀ pa, (∀ i < src.length, t.addr (va + i) ≠ pa) → mem' pa = mem pa

lemma UserSpace.stored (h : UserSpace mem t) {src : List UInt8}
    (hacc : ∀ i < src.length, t.Accessible (va + i)) :
    Stored t mem va src (t.write mem va src) :=
  ⟨fun _ ha => h.byte_write hacc ha, fun _ => t.write_of_ne mem⟩

lemma Scans.length_le {max : ℕ} {bytes : List UInt8} {r : ℤ} (h : Scans t mem va max bytes r) :
    bytes.length ≤ max := by
  cases h with
  | found k hk => rwa [Table.length_read]
  | ended k hk => rwa [Table.length_read]

lemma Scans.eq_zero_iff {max : ℕ} {bytes : List UInt8} {r : ℤ} (h : Scans t mem va max bytes r) :
    r = 0 ↔ ∃ k < max, (∀ i ≤ k, t.Accessible (va + i)) ∧ t.byte mem (va + k) = 0 := by
  cases h with
  | found k hk hacc hne hnul => exact ⟨fun _ => ⟨k, hk, hacc, hnul⟩, fun _ => rfl⟩
  | ended k hk hacc hne hstop =>
    refine ⟨fun hr => absurd hr (by decide), fun ⟨j, hj, haccj, hnul⟩ => ?_⟩
    obtain hlt | hge := Nat.lt_or_ge j k
    · exact absurd hnul (hne j hlt)
    · obtain rfl | hstop := hstop
      · omega
      · exact absurd (haccj k hge) hstop

/-- `copyout`, `copyin` and `copyinstr`, for every page table and every address. The first two
return 0 exactly if user code can access all addresses from `va` to `va + len`. They copy all
bytes, or those in front of the first address that user code cannot access. -/
theorem user_copies (h : UserSpace s.mem t) (va : BitVec 64) :
    (∀ src : List UInt8, ∃ r k s', (copyout t.root va.toNat src).run s = .ok (r, s') ∧
      (r = 0 ↔ ∀ a, va.toNat ≤ a → a < va.toNat + src.length → t.Accessible a) ∧
      Reaches t va.toNat src.length r k ∧ Stored t s.mem va.toNat (src.take k) s'.mem ∧
      s'.free = s.free) ∧
    (∀ len : BitVec 64, ∃ r k,
      (copyin t.root va.toNat len.toNat).run s = .ok ((t.read s.mem va.toNat k, r), s) ∧
      (r = 0 ↔ ∀ a, va.toNat ≤ a → a < va.toNat + len.toNat → t.Accessible a) ∧
      Reaches t va.toNat len.toNat r k) ∧
    ∀ max : BitVec 64, ∃ bytes r,
      (copyinstr t.root va.toNat max.toNat).run s = .ok ((bytes, r), s) ∧
      (r = 0 ↔ ∃ k < max.toNat, (∀ i ≤ k, t.Accessible (va.toNat + i)) ∧
        t.byte s.mem (va.toNat + k) = 0) ∧
      bytes.length ≤ max.toNat ∧ Scans t s.mem va.toNat max.toNat bytes r := by
  refine ⟨fun src => ?_, fun len => ?_, fun max => ?_⟩
  · obtain ⟨r, k, hreach, hrun⟩ := h.copyout_run va.toNat src
    refine ⟨r, k, _, hrun, hreach.eq_zero_iff, hreach, h.stored fun i hi => ?_, rfl⟩
    rw [List.length_take] at hi
    exact hreach.before i (by omega)
  · obtain ⟨r, k, hreach, hrun⟩ := h.copyin_run va.toNat len.toNat
    exact ⟨r, k, hrun, hreach.eq_zero_iff, hreach⟩
  · obtain ⟨bytes, r, hscan, hrun⟩ := h.copyinstr_run va.toNat max.toNat
    exact ⟨bytes, r, hrun, hscan.eq_zero_iff, hscan.length_le, hscan⟩

/-- A page table for one page of the user. -/
def onePage : Table where
  node l k := if l ≤ 2 ∧ k = 0 then (3 - l) * PGSIZE else 0
  leaf v := if v = 0 then mkPte (4 * PGSIZE) (PTE_R ||| PTE_W ||| PTE_U) else 0

/-- The memory with that table. -/
def onePageMem (pa : ℕ) : Page :=
  (Bytes.fill PGSIZE 0).st 8 0 <|
    if pa = 3 * PGSIZE then onePage.leaf 0
    else if pa = 2 * PGSIZE then dirPte (3 * PGSIZE)
    else if pa = PGSIZE then dirPte (2 * PGSIZE)
    else 0

lemma word_onePage (pa : ℕ) (hi : i ≠ 0) : word onePageMem pa i = 0 := by
  rw [word, onePageMem, Bytes.ld_st_of_disjoint (by omega), Bytes.ld_fill_zero]

lemma onePage_userSpace : UserSpace onePageMem onePage := by
  have hnode : ∀ {l k}, onePage.node l k ≠ 0 → l ≤ 2 ∧ k = 0 := by
    intro l k h
    by_contra hc
    exact h (if_neg hc)
  have hacc : ∀ va, onePage.Accessible va → vpn va = 0 := by
    intro va ha
    by_contra hv
    have hleaf : onePage.leaf (vpn va) = 0 := if_neg hv
    rw [Table.Accessible, hleaf] at ha
    exact absurd ha.2.1 (by decide)
  refine ⟨⟨fun h => ⟨(hnode h).1, fun _ => (hnode h).2⟩, fun {l k i} h hi => ?_,
    fun {k i} h hi => ?_, fun {l k} hl h => ?_, fun {v} hv => ?_⟩, fun l k => ?_, by decide,
    fun va ha => by rw [hacc va ha]; decide, fun va ha l k => ?_,
    fun va va' ha ha' _ => (hacc va ha).trans (hacc va' ha').symm⟩
  · obtain ⟨hl, rfl⟩ := hnode h
    by_cases hi0 : i = 0
    · subst hi0
      obtain rfl | rfl : l = 0 ∨ l = 1 := by omega
      · decide +kernel
      · decide +kernel
    · rw [word_onePage _ hi0, show onePage.node l (512 * 0 + i) = 0 from if_neg (by omega)]
      rfl
  · obtain ⟨-, rfl⟩ := hnode h
    by_cases hi0 : i = 0
    · subst hi0
      decide +kernel
    · rw [word_onePage _ hi0]
      exact (if_neg (by omega)).symm
  · obtain ⟨-, rfl⟩ := hnode h
    rw [show onePage.node (l + 1) (0 / 512) = (3 - (l + 1)) * PGSIZE from if_pos (by omega)]
    unfold PGSIZE
    omega
  · have hv0 : v = 0 := by
      by_contra hne
      exact hv (if_neg hne)
    subst hv0
    decide
  · unfold onePage PGSIZE
    dsimp only
    split <;> omega
  · rw [hacc va ha, show pte2pa (onePage.leaf 0) = 4 * PGSIZE by decide]
    unfold onePage PGSIZE
    dsimp only
    split <;> omega

/-- A copy that runs over the end of the only page. -/
theorem user_copies_onePage : UserSpace onePageMem onePage ∧
    ∃ r k s', (copyout onePage.root 4094 [1, 2, 3]).run ⟨onePageMem, [], fun _ => false⟩ =
      .ok (r, s') ∧ Reaches onePage 4094 3 r k := by
  obtain ⟨r, k, s', hrun, -, hreach, -⟩ :=
    (user_copies (s := ⟨onePageMem, [], fun _ => false⟩) onePage_userSpace 4094).1 [1, 2, 3]
  exact ⟨onePage_userSpace, r, k, s', hrun, hreach⟩

end Xv6.Vm
