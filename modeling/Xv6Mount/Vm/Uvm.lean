import Mathlib.Data.Nat.Bitwise
import Xv6Mount.Param
import Xv6Mount.Infra.Trace

/-!
# user の address 空間

`vm.c` と `kalloc.c` のうち、user の page table を伸ばし縮めるもの（`walkpgdir`・`mappages`・
`allocuvm`・`deallocuvm`）と、`proc.c` の `growproc`。物理 memory は page ごとの word の列で、
page directory と page table もその page である。物理 address と kernel の仮想 address は
`V2P` で一対一なので、このモデルは物理 address だけで書く。

`growproc(n)` は、`deallocuvm` の返り値 0 を失敗と読む。ところが 0 は「大きさ 0 まで縮めた」
という正しい返り値でもある。`growproc(-sz)` は user の page をすべて解放して page table から
外した後で -1 を返し、`sz` を元のまま残す（`growproc_shrink_to_zero_unmaps`）。その後の
process は `[0, PGROUNDUP(sz))` を写していない。

## 停止性

`deallocuvm` の loop は `oldsz - a`、`mappages` の loop は `last - a`、`allocuvm` の loop は
`newsz - a` で止まる。`deallocuvm` の page table のない区間を飛ばす分岐は、次の page directory
entry の先頭まで進む。address が 2^32 の手前で回るときの C の無限 loop は `hang` にした。
-/

namespace Xv6

open Infra

/-! ## 定数と address の分解 -/

/-- `PGSIZE`。 -/
def PGSIZE : Nat := 4096

/-- 物理 memory の上端。 -/
def PHYSTOP : Nat := 0xE000000

/-- `PTE_P`・`PTE_W`・`PTE_U`。 -/
def PTE_P : Nat := 0x001
def PTE_W : Nat := 0x002
def PTE_U : Nat := 0x004

/-- `PDX(va)`。page directory の index。 -/
def PDX (va : Nat) : Nat := va >>> 22 &&& 0x3FF

/-- `PTX(va)`。page table の index。 -/
def PTX (va : Nat) : Nat := va >>> 12 &&& 0x3FF

/-- `PGADDR(d, t, o)`。 -/
def PGADDR (d t o : Nat) : Nat := d <<< 22 ||| t <<< 12 ||| o

/-- `PGROUNDUP(sz)`。`& ~(PGSIZE-1)` は、2^32 より下では `PGSIZE` の倍数への切り捨てである。 -/
def PGROUNDUP (sz : Nat) : Nat := (sz + PGSIZE - 1) / PGSIZE * PGSIZE

/-- `PTE_ADDR(pte)`。`& ~0xFFF`。 -/
def PTE_ADDR (pte : Nat) : Nat := pte / PGSIZE * PGSIZE

/-! ## 物理 memory と `kalloc` -/

/-- 物理 memory（page → その中の word の番号 → word）、`kmem.freelist`、kernel の終わり `V2P(end)`。 -/
structure Vm where
  phys : Nat → Nat → Nat
  freelist : List Nat
  kend : Nat

/-- page `t` の word `i` に `v` を書く。 -/
def Vm.write (vm : Vm) (t i v : Nat) : Vm :=
  { vm with phys := Function.update vm.phys t (Function.update (vm.phys t) i v) }

/-- `memset(t, v, PGSIZE)`。page `t` の word をすべて `v` にする。 -/
def Vm.memset (vm : Vm) (t v : Nat) : Vm :=
  { vm with phys := Function.update vm.phys t fun _ => v }

/-- `kalloc`。free list の先頭の page を返す。空なら 0。 -/
def kalloc (vm : Vm) : Vm × Nat :=
  match vm.freelist with
  | [] => (vm, 0)
  | r :: rest => ({ vm with freelist := rest }, r)

/-- `kfree(v)`。page を検査し、junk（byte 1）で埋めて free list に戻す。 -/
def kfree (vm : Vm) (pa : Nat) : Except Stop Vm :=
  if pa % PGSIZE ≠ 0 ∨ pa < vm.kend ∨ PHYSTOP ≤ pa then .error (.panic "kfree")
  else .ok { vm.memset pa 0x01010101 with freelist := pa :: vm.freelist }

/-! ## page table -/

/--
`walkpgdir(pgdir, va, alloc)`。`va` の PTE の場所（page table の page と index）を返す。
page table がなければ、`alloc` のときだけ `kalloc` して 0 で埋めて page directory に入れる。
-/
def walkpgdir (vm : Vm) (pgdir va : Nat) (alloc : Bool) : Vm × Option (Nat × Nat) :=
  let pde := vm.phys pgdir (PDX va)
  if pde &&& PTE_P ≠ 0 then (vm, some (PTE_ADDR pde, PTX va))
  else if !alloc then (vm, none)
  else
    let (vm, pgtab) := kalloc vm
    if pgtab = 0 then (vm, none)
    else
      let vm := vm.memset pgtab 0
      let vm := vm.write pgdir (PDX va) (pgtab ||| PTE_P ||| PTE_W ||| PTE_U)
      (vm, some (pgtab, PTX va))

/-- `mappages` の loop。`a` から `last` までの page を `pa` からの物理 page に写す。 -/
def mappagesLoop (pgdir last perm : Nat) (vm : Vm) (a pa : Nat) : Except Stop (Vm × Int) :=
  match walkpgdir vm pgdir a true with
  | (vm, none) => .ok (vm, -1)
  | (vm, some (t, i)) =>
    if vm.phys t i &&& PTE_P ≠ 0 then .error (.panic "remap")
    else
      let vm := vm.write t i (pa ||| perm ||| PTE_P)
      if a = last then .ok (vm, 0)
      else if a < last then mappagesLoop pgdir last perm vm (a + PGSIZE) (pa + PGSIZE)
      else .error .hang
termination_by last - a
decreasing_by
  unfold PGSIZE
  omega

/-- `mappages(pgdir, va, size, pa, perm)`。 -/
def mappages (vm : Vm) (pgdir va size pa perm : Nat) : Except Stop (Vm × Int) :=
  mappagesLoop pgdir ((va + size - 1) / PGSIZE * PGSIZE) perm vm (va / PGSIZE * PGSIZE) pa

/--
`deallocuvm` の loop。`a` から `oldsz` まで、写っている page を `kfree` して PTE を 0 にする。
page table のない区間は、次の page directory entry まで飛ばす。
-/
def deallocuvmLoop (pgdir oldsz : Nat) (vm : Vm) (a : Nat) : Except Stop Vm :=
  if a < oldsz then
    match (walkpgdir vm pgdir a false).2 with
    | none =>
      let next := PGADDR (PDX a + 1) 0 0 - PGSIZE + PGSIZE
      if _ : a < next then deallocuvmLoop pgdir oldsz vm next else .error .hang
    | some (t, i) =>
      if vm.phys t i &&& PTE_P ≠ 0 then
        let pa := PTE_ADDR (vm.phys t i)
        if pa = 0 then .error (.panic "kfree")
        else
          match kfree vm pa with
          | .error e => .error e
          | .ok vm => deallocuvmLoop pgdir oldsz (vm.write t i 0) (a + PGSIZE)
      else deallocuvmLoop pgdir oldsz vm (a + PGSIZE)
  else .ok vm
termination_by oldsz - a
decreasing_by
  · -- 次の page directory entry の先頭へ飛ぶ
    exact Nat.sub_lt_sub_left ‹a < oldsz› ‹_›
  all_goals
    unfold PGSIZE
    omega

/-- `deallocuvm(pgdir, oldsz, newsz)`。新しい大きさを返す。 -/
def deallocuvm (vm : Vm) (pgdir oldsz newsz : Nat) : Except Stop (Vm × Nat) :=
  if newsz ≥ oldsz then .ok (vm, oldsz)
  else
    match deallocuvmLoop pgdir oldsz vm (PGROUNDUP newsz) with
    | .error e => .error e
    | .ok vm => .ok (vm, newsz)

/-- `allocuvm` の loop。page を `kalloc` して 0 で埋め、写す。失敗すれば `oldsz` まで戻して 0 を返す。 -/
def allocuvmLoop (pgdir oldsz newsz : Nat) (vm : Vm) (a : Nat) : Except Stop (Vm × Nat) :=
  if a < newsz then
    let (vm, mem) := kalloc vm
    if mem = 0 then
      match deallocuvm vm pgdir newsz oldsz with
      | .error e => .error e
      | .ok (vm, _) => .ok (vm, 0)
    else
      let vm := vm.memset mem 0
      match mappages vm pgdir a PGSIZE mem (PTE_W ||| PTE_U) with
      | .error e => .error e
      | .ok (vm, r) =>
        if r < 0 then
          match deallocuvm vm pgdir newsz oldsz with
          | .error e => .error e
          | .ok (vm, _) =>
            match kfree vm mem with
            | .error e => .error e
            | .ok vm => .ok (vm, 0)
        else allocuvmLoop pgdir oldsz newsz vm (a + PGSIZE)
  else .ok (vm, newsz)
termination_by newsz - a
decreasing_by
  unfold PGSIZE
  omega

/-- `allocuvm(pgdir, oldsz, newsz)`。新しい大きさを返す。失敗は 0。 -/
def allocuvm (vm : Vm) (pgdir oldsz newsz : Nat) : Except Stop (Vm × Nat) :=
  if newsz ≥ KERNBASE then .ok (vm, 0)
  else if newsz < oldsz then .ok (vm, oldsz)
  else allocuvmLoop pgdir oldsz newsz vm (PGROUNDUP oldsz)

/-- `growproc` が読む process の部分：page directory と大きさ。 -/
structure ProcMem where
  pgdir : Nat
  sz : Nat

/--
`growproc(n)`。`sz + n` は `uint` の足し算である。`allocuvm` か `deallocuvm` が 0 を返すと、
`sz` を変えずに -1 を返す。
-/
def growproc (vm : Vm) (p : ProcMem) (n : Int32) : Except Stop (Vm × ProcMem × Int) :=
  let r : Except Stop (Vm × Nat) :=
    if n > 0 then allocuvm vm p.pgdir p.sz ((p.sz + n.toUInt32.toNat) % 2 ^ 32)
    else if n < 0 then deallocuvm vm p.pgdir p.sz ((p.sz + n.toUInt32.toNat) % 2 ^ 32)
    else .ok (vm, p.sz)
  match r with
  | .error e => .error e
  | .ok (vm, sz) =>
    if n ≠ 0 ∧ sz = 0 then .ok (vm, p, -1)
    else .ok (vm, { p with sz := sz }, 0)

/-! ## 写っている page -/

/-- 割り当てずに `walkpgdir` したときの PTE の場所。 -/
def pteLoc (vm : Vm) (pgdir va : Nat) : Option (Nat × Nat) :=
  let pde := vm.phys pgdir (PDX va)
  if pde &&& PTE_P ≠ 0 then some (PTE_ADDR pde, PTX va) else none

/-- user の仮想 address `va` の page が写っているか（PTE があり `PTE_P` が立つ）。 -/
def present (vm : Vm) (pgdir va : Nat) : Bool :=
  match pteLoc vm pgdir va with
  | some (t, i) => vm.phys t i &&& PTE_P != 0
  | none => false

/-- page table が user の page をちょうど `[0, PGROUNDUP(sz))` だけ写している。 -/
def MapsExactly (vm : Vm) (pgdir sz : Nat) : Prop :=
  ∀ va < KERNBASE, va % PGSIZE = 0 → (present vm pgdir va = true ↔ va < PGROUNDUP sz)

/-! ## 物理 memory の読み書き -/

@[simp] theorem Vm.write_phys (vm : Vm) (t i v t' i' : Nat) :
    (vm.write t i v).phys t' i' = if t' = t ∧ i' = i then v else vm.phys t' i' := by
  unfold Vm.write
  by_cases ht : t' = t
  · subst ht
    by_cases hi : i' = i
    · subst hi
      simp
    · simp [hi]
  · simp [ht]

@[simp] theorem Vm.memset_phys (vm : Vm) (t v t' i : Nat) :
    (vm.memset t v).phys t' i = if t' = t then v else vm.phys t' i := by
  unfold Vm.memset
  by_cases ht : t' = t
  · subst ht
    simp
  · simp [ht]

@[simp] theorem Vm.write_kend (vm : Vm) (t i v : Nat) : (vm.write t i v).kend = vm.kend := rfl

@[simp] theorem Vm.memset_kend (vm : Vm) (t v : Nat) : (vm.memset t v).kend = vm.kend := rfl

/-- 割り当てない `walkpgdir` は状態を変えず、`pteLoc` を返す。 -/
theorem walkpgdir_false (vm : Vm) (pgdir va : Nat) : walkpgdir vm pgdir va false = (vm, pteLoc vm pgdir va) := by
  unfold walkpgdir pteLoc
  dsimp only
  by_cases h : vm.phys pgdir (PDX va) &&& PTE_P ≠ 0
  · rw [if_pos h, if_pos h]
  · rw [if_neg h, if_neg h]
    rfl

/-- page directory の行が同じなら、PTE の場所も同じである。 -/
theorem pteLoc_congr {vm vm' : Vm} {pgdir : Nat} (h : ∀ d, vm'.phys pgdir d = vm.phys pgdir d) (va : Nat) :
    pteLoc vm' pgdir va = pteLoc vm pgdir va := by
  simp only [pteLoc, h]

theorem pteLoc_eq_some {vm : Vm} {pgdir va t i : Nat} :
    pteLoc vm pgdir va = some (t, i) ↔
      vm.phys pgdir (PDX va) &&& PTE_P ≠ 0 ∧ t = PTE_ADDR (vm.phys pgdir (PDX va)) ∧ i = PTX va := by
  unfold pteLoc
  dsimp only
  by_cases h : vm.phys pgdir (PDX va) &&& PTE_P ≠ 0
  · rw [if_pos h]
    simp [h, eq_comm]
  · rw [if_neg h]
    simp [h]

/-- `kfree` が検査を通る page は、junk で埋められて free list に戻る。 -/
theorem kfree_of_valid {vm : Vm} {pa : Nat} (h0 : pa % PGSIZE = 0) (hk : vm.kend ≤ pa) (hp : pa < PHYSTOP) :
    kfree vm pa = .ok { vm.memset pa 0x01010101 with freelist := pa :: vm.freelist } := by
  unfold kfree
  rw [if_neg (by omega)]

theorem PTE_ADDR_mod (x : Nat) : PTE_ADDR x % PGSIZE = 0 := by
  unfold PTE_ADDR
  exact Nat.mul_mod_left _ _

/-! ## address の算術 -/

/-- 2^32 より下の address の `PDX` は 4 MiB 単位の番号である。 -/
theorem PDX_eq {a : Nat} (ha : a < 2 ^ 32) : PDX a = a / 2 ^ 22 := by
  unfold PDX
  rw [Nat.shiftRight_eq_div_pow, show (0x3FF : Nat) = 2 ^ 10 - 1 from rfl,
    Nat.and_two_pow_sub_one_eq_mod]
  omega

theorem PTX_eq (a : Nat) : PTX a = a / 2 ^ 12 % 2 ^ 10 := by
  unfold PTX
  rw [Nat.shiftRight_eq_div_pow, show (0x3FF : Nat) = 2 ^ 10 - 1 from rfl, Nat.and_two_pow_sub_one_eq_mod]

/-- page table のない区間を飛ばすと、次の page directory entry の先頭まで進む。 -/
theorem lt_next_pde {a : Nat} (ha : a < 2 ^ 32) : a < PGADDR (PDX a + 1) 0 0 - PGSIZE + PGSIZE := by
  unfold PGADDR PGSIZE
  rw [PDX_eq ha, Nat.shiftLeft_eq, Nat.zero_shiftLeft, Nat.or_zero, Nat.or_zero]
  omega

theorem PGROUNDUP_zero : PGROUNDUP 0 = 0 := rfl

theorem PGROUNDUP_pos {sz : Nat} (h : 0 < sz) : 0 < PGROUNDUP sz := by
  unfold PGROUNDUP PGSIZE
  omega

/-- 次の page directory entry の先頭は page の境界にある。 -/
theorem next_pde_mod (a : Nat) : (PGADDR (PDX a + 1) 0 0 - PGSIZE + PGSIZE) % PGSIZE = 0 := by
  unfold PGADDR PGSIZE
  rw [Nat.shiftLeft_eq, Nat.zero_shiftLeft, Nat.or_zero, Nat.or_zero]
  omega

/-- `a` から次の page directory entry の先頭までの address は、`a` と同じ page directory entry に入る。 -/
theorem PDX_eq_of_lt_next {a va : Nat} (ha : a < 2 ^ 32) (hva : va < 2 ^ 32) (hle : a ≤ va)
    (hlt : va < PGADDR (PDX a + 1) 0 0 - PGSIZE + PGSIZE) : PDX va = PDX a := by
  unfold PGADDR PGSIZE at hlt
  rw [PDX_eq ha, Nat.shiftLeft_eq, Nat.zero_shiftLeft, Nat.or_zero, Nat.or_zero] at hlt
  rw [PDX_eq ha, PDX_eq hva]
  omega

theorem present_of_pteLoc_none {vm : Vm} {pgdir va : Nat} (h : pteLoc vm pgdir va = none) :
    present vm pgdir va = false := by
  simp [present, h]

theorem present_of_zero {vm : Vm} {pgdir va t i : Nat} (h : pteLoc vm pgdir va = some (t, i))
    (h0 : vm.phys t i = 0) : present vm pgdir va = false := by
  simp [present, h, h0]

/-- `int` の値は、`uint` として読んだ値から 2^31 以上なら 2^32 を引いたものである。 -/
theorem Int32.toInt_eq_toUInt32 (n : Int32) :
    n.toInt = if 2 * n.toUInt32.toNat < 2 ^ 32 then (n.toUInt32.toNat : Int)
      else (n.toUInt32.toNat : Int) - (2 ^ 32 : Nat) :=
  BitVec.toInt_eq_toNat_cond n.toBitVec

/-! ## `deallocuvm` の loop の不変条件 -/

/--
page directory `pgdir` の user の page の条件。写っている page はちょうど `[0, PGROUNDUP(sz))` で、
page table の page は page directory と別の page である。写っている page の物理 page は
0 でなく、`kfree` の検査を通り、page directory とも page table とも別の page である。
-/
structure FrameOk (vm : Vm) (pgdir f : Nat) : Prop where
  ne_zero : f ≠ 0
  ge_kend : vm.kend ≤ f
  lt_phystop : f < PHYSTOP
  ne_dir : f ≠ pgdir
  ne_table : ∀ d, vm.phys pgdir d &&& PTE_P ≠ 0 → f ≠ PTE_ADDR (vm.phys pgdir d)

/-- `growproc` の前提になる、process の page table の形。 -/
structure UserPages (vm : Vm) (pgdir sz : Nat) : Prop where
  maps : MapsExactly vm pgdir sz
  table_ne_dir : ∀ d, vm.phys pgdir d &&& PTE_P ≠ 0 → PTE_ADDR (vm.phys pgdir d) ≠ pgdir
  frame : ∀ va < KERNBASE, ∀ t i, pteLoc vm pgdir va = some (t, i) → vm.phys t i &&& PTE_P ≠ 0 →
    FrameOk vm pgdir (PTE_ADDR (vm.phys t i))

/--
`deallocuvm` の loop が元の状態 `vm₀` に対して守る性質。page directory の行は元のままで、
page table の word は元の値か 0 である。
-/
structure Frozen (vm₀ vm : Vm) (pgdir : Nat) : Prop where
  kend : vm.kend = vm₀.kend
  dir : ∀ d, vm.phys pgdir d = vm₀.phys pgdir d
  tables : ∀ d, vm₀.phys pgdir d &&& PTE_P ≠ 0 → ∀ i,
    vm.phys (PTE_ADDR (vm₀.phys pgdir d)) i = vm₀.phys (PTE_ADDR (vm₀.phys pgdir d)) i ∨
      vm.phys (PTE_ADDR (vm₀.phys pgdir d)) i = 0

/-- page table の word のうち 0 のものは 0 のままである。 -/
def KeepsZeros (vm₀ vm vm' : Vm) (pgdir : Nat) : Prop :=
  ∀ d, vm₀.phys pgdir d &&& PTE_P ≠ 0 → ∀ i,
    vm.phys (PTE_ADDR (vm₀.phys pgdir d)) i = 0 → vm'.phys (PTE_ADDR (vm₀.phys pgdir d)) i = 0

theorem Frozen.refl (vm : Vm) (pgdir : Nat) : Frozen vm vm pgdir :=
  ⟨rfl, fun _ => rfl, fun _ _ _ => .inl rfl⟩

theorem KeepsZeros.refl (vm₀ vm : Vm) (pgdir : Nat) : KeepsZeros vm₀ vm vm pgdir :=
  fun _ _ _ h => h

theorem KeepsZeros.trans {vm₀ vm₁ vm₂ vm₃ : Vm} {pgdir : Nat} (h₁ : KeepsZeros vm₀ vm₁ vm₂ pgdir)
    (h₂ : KeepsZeros vm₀ vm₂ vm₃ pgdir) : KeepsZeros vm₀ vm₁ vm₃ pgdir :=
  fun d hd i h => h₂ d hd i (h₁ d hd i h)

section frozen

variable {vm₀ vm : Vm} {pgdir : Nat}

/--
loop の一段：写っている page の物理 page `f` を `kfree` し、PTE `(t, i)` を 0 にする。`f` が
page directory とも page table とも別の page で、`t` が page directory でなければ、不変条件と
0 の word は保たれる。
-/
theorem Frozen.free_step (hf : Frozen vm₀ vm pgdir) {f t i : Nat} (hfr : FrameOk vm₀ pgdir f)
    (hf0 : f % PGSIZE = 0) (hne : t ≠ pgdir) :
    ∃ vm₁, kfree vm f = .ok vm₁ ∧ Frozen vm₀ (vm₁.write t i 0) pgdir ∧
      KeepsZeros vm₀ vm (vm₁.write t i 0) pgdir := by
  have hk : vm.kend ≤ f := hf.kend ▸ hfr.ge_kend
  refine ⟨_, kfree_of_valid hf0 hk hfr.lt_phystop, ⟨hf.kend, fun d' => ?_, fun d' hd' i' => ?_⟩,
    fun d' hd' i' hz => ?_⟩
  · -- page directory は `f` でも `t` でもない
    simp only [Vm.write_phys, Vm.memset_phys, hne.symm, hfr.ne_dir.symm, false_and, if_false]
    exact hf.dir d'
  · -- page table の word は、`(t, i)` なら 0、それ以外は `f` と別の page なので元のまま
    have hT := (hfr.ne_table d' hd').symm
    simp only [Vm.write_phys, Vm.memset_phys, hT, if_false]
    split
    · exact .inr rfl
    · exact hf.tables d' hd' i'
  · have hT := (hfr.ne_table d' hd').symm
    simp only [Vm.write_phys, Vm.memset_phys, hT, if_false]
    split
    · rfl
    · exact hz

/-- 不変条件の下で、元の PTE が写っていないか今の PTE が 0 なら、その page は写っていない。 -/
theorem Frozen.not_present (hf : Frozen vm₀ vm pgdir) {va t i : Nat} (hl : pteLoc vm₀ pgdir va = some (t, i))
    (h : vm₀.phys t i &&& PTE_P = 0 ∨ vm.phys t i = 0) : present vm pgdir va = false := by
  obtain ⟨hd, rfl, rfl⟩ := pteLoc_eq_some.1 hl
  have hl' : pteLoc vm pgdir va = some (PTE_ADDR (vm₀.phys pgdir (PDX va)), PTX va) := by
    rw [pteLoc_congr hf.dir, hl]
  rcases h with h | h
  · rcases hf.tables _ hd (PTX va) with h' | h'
    · simp [present, hl', h', h]
    · exact present_of_zero hl' h'
  · exact present_of_zero hl' h

/-- page directory entry がなければ、同じ entry に入る address にも PTE はない。 -/
theorem pteLoc_none_of_PDX {vm : Vm} {a va : Nat} (h : pteLoc vm pgdir a = none) (hd : PDX va = PDX a) :
    pteLoc vm pgdir va = none := by
  unfold pteLoc at h ⊢
  rw [hd]
  dsimp only at h ⊢
  split at h
  · cases h
  · rename_i hn
    rw [if_neg hn]

/--
**`deallocuvm` の loop は止まり、`[a, oldsz)` の page をすべて外す。** 元の状態が `UserPages` を
満たし `oldsz ≤ KERNBASE` なら、page の境界 `a` から始めた loop は panic も `hang` もせずに終わり、
不変条件と 0 の word を保ち、`[a, oldsz)` のどの page も写っていない状態を返す。
-/
theorem deallocuvmLoop_spec {sz oldsz : Nat} (hu : UserPages vm₀ pgdir sz) (hold : oldsz ≤ KERNBASE)
    (vm : Vm) (a : Nat) (ha : a % PGSIZE = 0) (hf : Frozen vm₀ vm pgdir) :
    ∃ vm', deallocuvmLoop pgdir oldsz vm a = .ok vm' ∧ Frozen vm₀ vm' pgdir ∧
      KeepsZeros vm₀ vm vm' pgdir ∧
      ∀ va, a ≤ va → va < oldsz → va % PGSIZE = 0 → present vm' pgdir va = false := by
  rw [deallocuvmLoop]
  split
  · rename_i hlt
    have ha32 : a < 2 ^ 32 := by unfold KERNBASE at hold; omega
    rw [walkpgdir_false, pteLoc_congr hf.dir]
    cases hl : pteLoc vm₀ pgdir a with
    | none =>
      -- page table がなければ次の page directory entry へ。その間の page にも PTE はない
      dsimp only
      rw [dif_pos (lt_next_pde ha32)]
      obtain ⟨vm', h', hf', hz', hun⟩ := deallocuvmLoop_spec hu hold vm _ (next_pde_mod a) hf
      refine ⟨vm', h', hf', hz', fun va hle hva hmod => ?_⟩
      by_cases hnext : va < PGADDR (PDX a + 1) 0 0 - PGSIZE + PGSIZE
      · have hd := PDX_eq_of_lt_next ha32 (by unfold KERNBASE at hold; omega) hle hnext
        apply present_of_pteLoc_none
        rw [pteLoc_congr hf'.dir]
        exact pteLoc_none_of_PDX hl hd
      · exact hun va (by omega) hva hmod
    | some l =>
      obtain ⟨t, i⟩ := l
      obtain ⟨hd, rfl, rfl⟩ := pteLoc_eq_some.1 hl
      dsimp only
      by_cases hp : vm.phys (PTE_ADDR (vm₀.phys pgdir (PDX a))) (PTX a) &&& PTE_P ≠ 0
      · -- 写っている PTE は 0 でないので元の値であり、その物理 page は `FrameOk`
        have horig := (hf.tables _ hd (PTX a)).resolve_right fun h0 => hp (by rw [h0]; rfl)
        have hfr := hu.frame a (by omega) _ _ hl (horig ▸ hp)
        rw [if_pos hp, horig, if_neg hfr.ne_zero]
        obtain ⟨vm₁, hk, hf₁, hz₁⟩ := hf.free_step (i := PTX a) hfr (PTE_ADDR_mod _) (hu.table_ne_dir _ hd)
        rw [hk]
        obtain ⟨vm', h', hf', hz', hun⟩ :=
          deallocuvmLoop_spec hu hold _ (a + PGSIZE) (by unfold PGSIZE at *; omega) hf₁
        refine ⟨vm', h', hf', hz₁.trans hz', fun va hle hva hmod => ?_⟩
        by_cases hva' : va = a
        · -- `a` の PTE はこの段で 0 になり、その後も 0 のまま
          subst hva'
          exact hf'.not_present hl (.inr (hz' _ hd _ (by simp)))
        · exact hun va (by unfold PGSIZE at *; omega) hva hmod
      · rw [if_neg hp]
        obtain ⟨vm', h', hf', hz', hun⟩ :=
          deallocuvmLoop_spec hu hold vm (a + PGSIZE) (by unfold PGSIZE at *; omega) hf
        refine ⟨vm', h', hf', hz', fun va hle hva hmod => ?_⟩
        by_cases hva' : va = a
        · -- 写っていなかった PTE は、元の値なら写っておらず、0 なら 0 のまま
          subst hva'
          rcases hf.tables _ hd (PTX va) with h | h
          · exact hf'.not_present hl (.inl (by rw [← h]; simpa using hp))
          · exact hf'.not_present hl (.inr (hz' _ hd _ h))
        · exact hun va (by unfold PGSIZE at *; omega) hva hmod
  · exact ⟨vm, rfl, hf, KeepsZeros.refl _ _ _, fun va hle hva _ => by omega⟩
termination_by oldsz - a
decreasing_by
  all_goals
    have := lt_next_pde (a := a) (by unfold KERNBASE at hold; omega)
    unfold PGSIZE at *
    omega

end frozen

/-! ## `growproc` で 0 まで縮める -/

/-- `sz + n` が `uint` で 0 になる負の `n`：`n` を `uint` として読むと `2^32 - sz`。 -/
theorem add_toUInt32_of_toInt_neg {n : Int32} {sz : Nat} (hsz : 0 < sz) (hn : n.toInt = -(sz : Int)) :
    (sz + n.toUInt32.toNat) % 2 ^ 32 = 0 := by
  have h := Int32.toInt_eq_toUInt32 n
  have hlt := n.toUInt32.toNat_lt
  rw [hn] at h
  split at h <;> omega

/--
**`growproc(-sz)` は page をすべて外してから -1 を返す。** page table が `[0, PGROUNDUP(sz))` を
ちょうど写している process で、`0 < sz ≤ KERNBASE` のとき、`n = -sz` の `growproc(n)` は
`deallocuvm` が返す 0 を失敗と読み、`sz` を変えずに -1 を返す。そのときには page 0 はもう
写っておらず、page table は `[0, PGROUNDUP(sz))` を写していない。
-/
theorem growproc_shrink_to_zero_unmaps {vm : Vm} {pgdir sz : Nat} {n : Int32} (hu : UserPages vm pgdir sz)
    (hsz : 0 < sz) (hk : sz ≤ KERNBASE) (hn : n.toInt = -(sz : Int)) :
    ∃ vm', growproc vm ⟨pgdir, sz⟩ n = .ok (vm', ⟨pgdir, sz⟩, -1) ∧ present vm' pgdir 0 = false ∧
      ¬ MapsExactly vm' pgdir sz := by
  have hneg : n < 0 := by
    rw [Int32.lt_iff_toInt_lt, hn, Int32.toInt_zero]
    omega
  have hpos : ¬ n > 0 := by
    rw [gt_iff_lt, Int32.lt_iff_toInt_lt, hn, Int32.toInt_zero]
    omega
  obtain ⟨vm', hd, -, -, hun⟩ := deallocuvmLoop_spec hu hk vm 0 rfl (Frozen.refl vm pgdir)
  -- `deallocuvm(pgdir, sz, 0)` は loop を 0 から走らせ、正しく 0 を返す
  have hdealloc : deallocuvm vm pgdir sz 0 = .ok (vm', 0) := by
    unfold deallocuvm
    rw [if_neg (by omega), PGROUNDUP_zero, hd]
  have hp : present vm' pgdir 0 = false := hun 0 (le_refl _) hsz rfl
  refine ⟨vm', ?_, hp, fun hm => ?_⟩
  · unfold growproc
    simp only [hpos, if_false, hneg, if_true, add_toUInt32_of_toInt_neg hsz hn, hdealloc]
    rw [if_pos ⟨Int32.ne_of_lt hneg, trivial⟩]
  · -- `MapsExactly` なら page 0 は写っているはず
    have h0 := (hm 0 (by decide) rfl).2 (PGROUNDUP_pos hsz)
    rw [hp] at h0
    cases h0

/--
一つの page だけを持つ process の page table。page directory は `0x200000`、page table は
`0x201000`、page 0 の物理 page は `0x202000` で、kernel は `0x100000` で終わる。
-/
def sampleVm : Vm where
  phys p i :=
    if p = 0x200000 ∧ i = 0 then 0x201000 ||| PTE_P ||| PTE_W ||| PTE_U
    else if p = 0x201000 ∧ i = 0 then 0x202000 ||| PTE_P ||| PTE_W ||| PTE_U
    else 0
  freelist := []
  kend := 0x100000

/-- 例の page table では、写っている page は address 0 の page だけである。 -/
theorem sampleVm_present (va : Nat) :
    present sampleVm 0x200000 va = decide (PDX va = 0 ∧ PTX va = 0) := by
  by_cases h1 : PDX va = 0 <;> by_cases h2 : PTX va = 0 <;>
    simp [present, pteLoc, sampleVm, h1, h2, PTE_ADDR, PGSIZE, PTE_P, PTE_W, PTE_U]

theorem sampleVm_userPages : UserPages sampleVm 0x200000 4096 := by
  refine ⟨fun va hva hmod => ?_, fun d hd => ?_, fun va hva t i hl hp => ?_⟩
  · have h32 : va < 2 ^ 32 := by unfold KERNBASE at hva; omega
    rw [sampleVm_present, PDX_eq h32, PTX_eq, show PGROUNDUP 4096 = 4096 from rfl]
    unfold PGSIZE at hmod
    simp only [decide_eq_true_eq]
    omega
  · by_cases h0 : d = 0
    · subst h0
      decide
    · simp [sampleVm, h0, PTE_P] at hd
  · obtain ⟨hd, rfl, rfl⟩ := pteLoc_eq_some.1 hl
    by_cases h1 : PDX va = 0
    · by_cases h2 : PTX va = 0
      · simp only [h1, h2]
        exact ⟨by decide, by decide, by decide, by decide, fun d hd' => by
          by_cases h0 : d = 0
          · subst h0
            decide
          · simp [sampleVm, h0, PTE_P] at hd'⟩
      · simp [sampleVm, h1, h2, PTE_ADDR, PGSIZE, PTE_P, PTE_W, PTE_U] at hp
    · simp [sampleVm, h1, PTE_P] at hd

/--
例の process（page 0 だけを写す、`sz = 4096`）で `growproc(-4096)` は -1 を返し、`sz` は 4096 のまま
だが、page 0 はもう写っていない。
-/
theorem growproc_shrink_to_zero_at_sample :
    UserPages sampleVm 0x200000 4096 ∧ 0 < 4096 ∧ 4096 ≤ KERNBASE ∧ (-4096 : Int32).toInt = -((4096 : Nat) : Int) ∧
      ∃ vm', growproc sampleVm ⟨0x200000, 4096⟩ (-4096) = .ok (vm', ⟨0x200000, 4096⟩, -1) ∧
        present vm' 0x200000 0 = false ∧ ¬ MapsExactly vm' 0x200000 4096 :=
  ⟨sampleVm_userPages, by decide, by decide, by decide,
    growproc_shrink_to_zero_unmaps sampleVm_userPages (by decide) (by decide) (by decide)⟩

end Xv6
